import ScriptEngine.Store
import Std.Data.HashSet

/-! # What holds what

Cells, classes and procedures hold the values in them. One that is held neither from outside nor by another
is let go, and with it its hold on others. So the members of a ring, which hold each other, are never let go,
nor is anything that they hold. A procedure does not hold the class it belongs to.
-/

namespace ScriptEngine

/-- What lives in the store and holds values: a cell, a procedure or a class. -/
inductive Holder where
  | cell (kind : CellKind) (index : Nat)
  | procedure (id : ProcedureId)
  | classDef (id : ClassId)
deriving DecidableEq, Hashable, Repr

/-- What a value holds. -/
def Value.holders : Value → List Holder
  | null | bool _ | number _ | string _ => []
  | list r => [.cell .list r.index]
  | map r => [.cell .map r.index]
  | set r => [.cell .set r.index]
  | pair _ first second => first.holders ++ second.holders
  | procedure id => [.procedure id]
  | method receiver id => .procedure id :: receiver.holders
  | native r => [.cell .native r.index]
  | classRef id => [.classDef id]
  | inst r => [.cell .inst r.index]
  | object r => [.cell .object r.index]

/-- What the values of a table hold. -/
def bindingHolders (b : Bindings) : List Holder := b.entries.flatMap fun entry => entry.2.holders

/-- What the constants of a procedure hold. -/
def Procedure.holders (p : Procedure) : List Holder :=
  p.params.flatMap (fun q => q.default.toList.flatMap Value.holders) ++
    p.code.toList.flatMap fun
      | .value v => v.holders
      | _ => []

/-- What an object holds. -/
def Object.holders : Object → List Holder
  | module _ members => bindingHolders members
  | host object => bindingHolders object.fields

/-- What a native function holds. -/
def Native.holders (f : Native) : List Holder :=
  match f.body with
  | .builtin _ => []
  | .host captured => captured.flatMap Value.holders

/-- What a program holds until its host lets go of it. -/
def Program.holders (p : Program) : List Holder :=
  if p.released then []
  else
    (p.topLevel.toList ++ p.classSetups).map .procedure ++ bindingHolders p.members ++
      p.modules.flatMap Value.holders

namespace Store

variable (s : Store)

/-- What is held directly by something in the store. -/
def heldBy : Holder → List Holder
  | .cell .list i => (s.list ⟨i⟩).toList.flatMap Value.holders
  | .cell .map i => (s.map ⟨i⟩).entries.flatMap fun (key, v) => key.value.holders ++ v.holders
  | .cell .set i => (s.set ⟨i⟩).keys.flatMap fun key => key.value.holders
  | .cell .inst i =>
    match s.instances[i]? with
    | some made => .classDef made.ofClass :: bindingHolders made.members
    | none => []
  | .cell .native i => (s.native ⟨i⟩).holders
  | .cell .object i => (s.object ⟨i⟩).holders
  | .procedure id => (s.procedure id).holders
  | .classDef id =>
    let c := s.classDef id
    c.methods.entries.map (.procedure ·.2) ++ bindingHolders c.statics

/-- Everything that was ever made in the store. -/
def allHolders : List Holder :=
  let cells (kind : CellKind) (count : Nat) := (List.range count).map (Holder.cell kind)
  let ofProgram (p : Program) (id : ProgramId) :=
    (List.range p.classes.size).map (fun i => .classDef ⟨id, i⟩) ++
      (List.range p.procedures.size).map (fun i => .procedure ⟨id, i⟩)
  cells .list s.lists.size ++ cells .map s.maps.size ++ cells .set s.sets.size ++
    cells .inst s.instances.size ++ cells .native s.natives.size ++ cells .object s.objects.size ++
    s.programs.toList.zipIdx.flatMap fun (p, id) => ofProgram p id

/-- Those of some holders that are held from outside or by one of them. -/
def stillHeld (roots among : List Holder) : List Holder :=
  let held := among.foldl (fun held h => held.insertMany (s.heldBy h)) (Std.HashSet.ofList roots)
  among.filter held.contains

/-- What is left of some holders when those that nothing holds are let go, again and again. -/
def lasting (roots among : List Holder) : List Holder :=
  let next := s.stillHeld roots among
  if next.length < among.length then lasting roots next else among
termination_by among.length

/-- Nothing in `lasting` is let go. -/
theorem stillHeld_lasting (roots among : List Holder) :
    s.stillHeld roots (s.lasting roots among) = s.lasting roots among := by
  induction among using Store.lasting.induct s roots with
  | case1 among next fewer ih =>
    rw [lasting]
    simp only [if_pos fewer, next] at ih ⊢
    exact ih
  | case2 among next same =>
    rw [lasting]
    simp only [if_neg same, next]
    exact List.filter_sublist.eq_of_length_le (Nat.le_of_not_lt same)

end Store

end ScriptEngine
