import ScriptEngine.Proofs.Looping
import ScriptEngine.Proofs.Numbers
import ScriptEngine.Proofs.Startup
import ScriptEngine.Proofs.TopLevelNames

/-! # What starting a program writes

The code that runs when a program is started consists of the setups of its classes and the code of the top level. The
setups write no variables, and the code of the top level writes those that its statements bind, and those that the
compiler made up for its loops. So it writes to the name of a class only by a loop, by a handler or by a definition in a
block.
-/

namespace ScriptEngine

/-- Wherever the code stands, and whatever a chart says of it, it writes only variables of a kind, apart from those that
the compiler made up. -/
def WritesOnly (P : String → Prop) (is : List Instruction) : Prop :=
  ∀ ⦃c : Chart⦄ ⦃own : String → Nat → Prop⦄ ⦃code : Array Instruction⦄ ⦃lo : Nat⦄, c.Maps own code →
    Segment code lo is → ∀ ⦃k : Nat⦄ ⦃i : Instruction⦄ ⦃name : String⦄, is[k]? = some i → i.isWriter = true →
      i.Uses (c.sketch (lo + k)) name → isHidden name = false → P name

namespace WritesOnly

variable {P : String → Prop} {C : Instruction → Prop} {a b condition items body handler : List Instruction}
  {i : Instruction} {name : String}

theorem nil : WritesOnly P [] := fun _ _ _ _ _ _ _ _ _ found => nomatch found

theorem single (only : ∀ σ name, i.isWriter = true → i.Uses σ name → P name) : WritesOnly P [i] := by
  intro c own code lo maps seg k j name found writer uses _
  obtain rfl : j = i := List.mem_singleton.mp (List.mem_of_getElem? found)
  exact only _ name writer uses

theorem append (first : WritesOnly P a) (second : WritesOnly P b) : WritesOnly P (a ++ b) := by
  intro c own code lo maps seg k i name found writer uses
  rcases Nat.lt_or_ge k a.length with before | behind
  · rw [List.getElem?_append_left before] at found
    exact first maps seg.left found writer uses
  · rw [List.getElem?_append_right behind] at found
    refine second maps seg.right found writer ?_
    rwa [Nat.add_assoc, Nat.add_sub_cancel' behind]

theorem cons (other : i.isWriter = false) (further : WritesOnly P a) : WritesOnly P (i :: a) :=
  append (single fun _ _ writer => absurd writer (by simp [other])) further

theorem snoc (code : WritesOnly P a) (other : i.isWriter = false) : WritesOnly P (a ++ [i]) :=
  append code (cons other nil)

theorem caught {binding : Option String} (named : ∀ name ∈ binding, P name) : WritesOnly P [.caught binding] := by
  refine single fun σ name _ uses => ?_
  rcases uses with ⟨⟨⟩⟩ | ⟨_, _, _, ⟨⟩, _⟩ | ⟨⟨⟩⟩
  exact named name rfl

section

variable (calls : CallsOnly C)
include calls

theorem operand {n : Nat} (value : Pushes C n a) : WritesOnly P a := by
  induction value with
  | nil => exact nil
  | append _ _ first second => exact first.append second
  | value | load => exact cons rfl nil
  | call known _ ih => exact ih.append (single fun _ _ _ uses => absurd uses.call.1 (calls _ known))
  | send _ _ ih => exact ih.snoc rfl
  | shortCircuit _ _ _ _ first second => exact (first.append (cons rfl second)).append (cons rfl (cons rfl nil))

/-- An assignment writes the variable whose name stands below the value. -/
theorem assign {place : Position} (value : Pushes C 1 a) (named : isHidden name = false → P name) :
    WritesOnly P (Fragment.assign name a place) := by
  have silent : WritesOnly P (.value (.string name) :: a) := cons rfl (operand calls value)
  intro c own code lo maps seg k i other found writer uses plain
  rcases Nat.lt_or_ge k (a.length + 1) with before | behind
  · rw [Fragment.assign, List.getElem?_append_left (by simpa using before)] at found
    exact silent maps seg.left found writer uses plain
  -- The call at the end is the only writer, and below its value is the string that was pushed first.
  · have inside := (List.getElem?_eq_some_iff.mp found).1
    obtain rfl : k = a.length + 1 := by
      simp [Fragment.assign] at inside
      omega
    obtain rfl : i = .call (.positional "set" 2 place) := by simpa [Fragment.assign] using found.symm
    obtain ⟨_, k', σ, above⟩ := uses.call
    have within := seg.inside
    simp only [Fragment.assign, List.length_append, List.length_cons, List.length_nil] at within
    obtain rfl := maps.operand_named calls value seg.left (by omega) above
    exact named plain

theorem skipIf {kind : BranchKind} (test : Pushes C 1 condition) (inner : WritesOnly P body) :
    WritesOnly P (Fragment.skipIf kind condition body) := (operand calls test).append (cons rfl inner)

theorem conditional {rest : Option (List Instruction)} (test : Pushes C 1 condition) (inner : WritesOnly P body)
    (others : ∀ is ∈ rest, WritesOnly P is) : WritesOnly P (Fragment.conditional condition body rest) := by
  cases rest with
  | none => exact skipIf calls test inner
  | some rest => exact ((operand calls test).append (cons rfl inner)).append (cons rfl (others rest rfl))

theorem whileLoop (test : Pushes C 1 condition) (inner : WritesOnly P body) :
    WritesOnly P (Fragment.whileLoop condition body) :=
  ((operand calls test).append (cons rfl inner)).snoc rfl

/-- A loop over elements writes its variables and that for the element. -/
theorem forLoop {program : ProgramId} {spelled : List SpelledCall} (known : Admits program C spelled) {n : Nat}
    {place namePlace : Position} (named : P name) (container : Pushes C 1 items) (inner : WritesOnly P body) :
    WritesOnly P (Fragment.forLoop n place name namePlace items body) := by
  have own (role : String) : isHidden (hiddenName role n) = false → P (hiddenName role n) := by simp
  have load (role : String) : Pushes C 1 [.load (hiddenName role n) place] := .load _ place
  have number (x : Float) : Pushes C 1 [.value (.number x)] := known.plain rfl
  rw [Fragment.forLoop_eq]
  refine (assign calls container (own "iter")).append (.append (assign calls ?_ (own "len")) (.append
    (assign calls (number 0) (own "idx")) (skipIf calls ?_ (whileLoop calls ?_ (.append (assign calls ?_ fun _ => named)
    (inner.append (assign calls ?_ (own "idx"))))))))
  · exact (load "iter").made_send (known.made _ (.size place))
  · exact ((load "len").append (number 0)).made_send (known.made _ (.binary .equal place))
  · exact ((load "idx").append (load "len")).made_send (known.made _ (.binary .less place))
  · exact ((load "iter").append (load "idx")).made_send (known.made _ (.element place))
  · exact ((load "idx").append (number 1)).made_send (known.made _ (.binary .add place))

end

theorem guarded {binding : Option String} (named : ∀ name ∈ binding, P name) (inner : WritesOnly P body)
    (answer : WritesOnly P handler) : WritesOnly P (Fragment.guarded body binding handler) :=
  append (a := _ :: body) (cons rfl inner) (cons rfl (cons rfl ((caught named).append answer)))

end WritesOnly

section

variable {P : String → Prop} {C : Instruction → Prop} {o : LoweringOptions}

theorem WritesOnly.marked {ν : Numbering} {lines : Lines} {is : List Instruction} (code : WritesOnly P is) :
    WritesOnly P (o.emitMark ν lines ++ is) := by
  unfold LoweringOptions.emitMark
  split
  · exact code.cons rfl
  · exact code

theorem Target.writesOnly (calls : CallsOnly C) (t : Target) {value : List Instruction} (place : Position)
    (pushes : Pushes C 1 value) (known : Admits o.program C t.calls) (assigned : ∀ name ∈ t.assigned, P name) :
    WritesOnly P (t.emit value place) := by
  cases t with
  | «variable» name here => exact .assign calls pushes fun _ => assigned name List.mem_cons_self
  | member receiver name here =>
    have operands := WritesOnly.operand (P := P) calls (receiver.pushes known)
    have rest : WritesOnly P (value ++ [.send (.positional "setMember" 2 here)] ++ [.discard]) :=
      ((WritesOnly.operand calls pushes).snoc rfl).snoc rfl
    simpa [Target.emit] using operands.append (.cons (i := .value (.string name)) rfl rest)
  | index receiver key here =>
    have operands := (receiver.pushes known.left).append (key.pushes known.right) |>.append pushes
    have rest : WritesOnly P (_ ++ [.send (.positional "__setitem__" 2 here)] ++ [.discard]) :=
      ((WritesOnly.operand calls operands).snoc rfl).snoc rfl
    simpa [Target.emit] using rest

mutual

/-- A statement writes the variables that it binds, and those of its loops. -/
theorem Stmt.writesOnly (calls : CallsOnly C) (ν : Numbering) (s : Stmt) (known : Admits o.program C s.calls)
    (assigned : ∀ name ∈ s.assigned, P name) (bound : ∀ name ∈ s.bound, P name) : WritesOnly P (s.emit o ν) := by
  cases s with
  | eval lines value => exact .marked ((WritesOnly.operand calls (value.pushes known)).snoc rfl)
  | assign lines target value place =>
    exact .marked (target.writesOnly calls place (value.pushes known.right) known.left assigned)
  | ret lines value =>
    refine .marked (.snoc ?_ rfl)
    cases value with
    | none => exact .cons rfl .nil
    | some value => exact .operand calls (value.pushes known)
  | branch line condition body otherwise =>
    obtain ⟨assigned, assigned'⟩ := List.forall_mem_append.mp assigned
    obtain ⟨bound, bound'⟩ := List.forall_mem_append.mp bound
    exact .marked (.conditional calls (condition.pushes known.left.left)
      (blockWritesOnly calls ν.mark body known.left.right assigned bound)
      (otherwise.writesOnly calls (blockAfter ν.mark body) known.right assigned' bound'))
  | whileLoop line condition body =>
    exact .marked (.whileLoop calls (condition.pushes known.left)
      (blockWritesOnly calls ν.mark body known.right assigned bound))
  | forLoop place name namePlace items body =>
    obtain ⟨named, bound⟩ := List.forall_mem_cons.mp bound
    exact .marked (.forLoop calls known named (items.pushes known.left)
      (blockWritesOnly calls ν.mark.loop body known.right assigned bound))
  | guarded line body binding handler =>
    obtain ⟨assigned, assigned'⟩ := List.forall_mem_append.mp assigned
    obtain ⟨others, bound'⟩ := List.forall_mem_append.mp bound
    obtain ⟨bound, named⟩ := List.forall_mem_append.mp others
    exact .marked (.guarded (fun name here => named name (Option.mem_toList.mpr here))
      (blockWritesOnly calls ν.mark body known.left assigned bound)
      (blockWritesOnly calls (blockAfter ν.mark body) handler known.right assigned' bound'))
  | define place name params body =>
    exact .marked (.assign calls (.value (known.constant _ (Value.procedure_isOf rfl))) fun _ =>
      bound name (List.mem_singleton_self name))

theorem blockWritesOnly (calls : CallsOnly C) (ν : Numbering) (body : List Stmt)
    (known : Admits o.program C (blockCalls body)) (assigned : ∀ name ∈ blockAssigned body, P name)
    (bound : ∀ name ∈ blockBound body, P name) : WritesOnly P (emitBlock o ν body) := by
  cases body with
  | nil => exact .nil
  | cons s rest =>
    obtain ⟨assigned, assigned'⟩ := List.forall_mem_append.mp assigned
    obtain ⟨bound, bound'⟩ := List.forall_mem_append.mp bound
    exact (s.writesOnly calls ν known.left assigned bound).append
      (blockWritesOnly calls (s.after ν) rest known.right assigned' bound')

theorem Otherwise.writesOnly (calls : CallsOnly C) (ν : Numbering) (otherwise : Otherwise)
    (known : Admits o.program C otherwise.calls) (assigned : ∀ name ∈ otherwise.assigned, P name)
    (bound : ∀ name ∈ otherwise.bound, P name) : ∀ is ∈ otherwise.emit o ν, WritesOnly P is := by
  cases otherwise with
  | nothing => exact nofun
  | block body =>
    rintro is ⟨⟩
    exact blockWritesOnly calls ν body known assigned bound
  | branch condition body otherwise =>
    obtain ⟨assigned, assigned'⟩ := List.forall_mem_append.mp assigned
    obtain ⟨bound, bound'⟩ := List.forall_mem_append.mp bound
    rintro is ⟨⟩
    exact .conditional calls (condition.pushes known.left.left)
      (blockWritesOnly calls ν body known.left.right assigned bound)
      (otherwise.writesOnly calls (blockAfter ν body) known.right assigned' bound')

end

end

section

variable {P : String → Prop} {C : Instruction → Prop} {o : LoweringOptions} (calls : CallsOnly C)

theorem ClassTree.summary_count (c : ClassTree) (program : ProgramId) (ν : Numbering) :
    (c.summary program ν).after.procedures = ν.procedures + (c.summary program ν).definitions.length := by
  have start : Assembler.Matches ⟨program, false⟩ (id program ν) ⟨.empty, .empty, .empty, []⟩
      ⟨ν, [], .empty, .empty, []⟩ := ⟨rfl, rfl, by simp, rfl, by simp⟩
  obtain ⟨_, ds, yields, _, definitions⟩ := Assembler.lowerMembers_yields rfl c.name c.members start
  change (c.summary program ν).definitions = [] ++ ds at definitions
  rw [definitions]
  exact yields.count.1

theorem ClassTree.setup_of_mem {c : ClassTree} {program : ProgramId} {ν : Numbering} {d : Definition}
    (among : d ∈ c.setup program ν) : c.setup program ν = [d] ∧ d.body = (c.summary program ν).fields := by
  unfold setup at among ⊢
  split at among
  · cases among
  · rw [List.mem_singleton.mp among]
    exact ⟨rfl, rfl⟩

include calls

/-- The setup of a class writes no variables. -/
theorem ClassTree.setup_writesOnly (c : ClassTree) (ν : Numbering) (known : Admits o.program C c.calls) :
    ∀ d ∈ c.setup o.program ν, WritesOnly P (emitPieces o d.body) := by
  have fold (members : List MemberTree) (s : MemberSummary) (written : WritesOnly P (emitPieces o s.fields))
      (each : ∀ t ∈ members, Admits o.program C t.calls) :
      WritesOnly P (emitPieces o (members.foldl (MemberSummary.add c.name (id o.program ν)) s).fields) := by
    induction members generalizing s with
    | nil => exact written
    | cons t rest ih =>
      obtain ⟨here, others⟩ := List.forall_mem_cons.mp each
      refine ih _ ?_ others
      cases t with
      | method f | staticMethod f => simpa [MemberSummary.add, MemberTree.fields] using written
      | staticField lines field place value =>
        have operand : WritesOnly P (value.emit ++ [.send (.positional "setMember" 2 place)] ++ [.discard]) :=
          ((WritesOnly.operand calls (value.pushes here)).snoc rfl).snoc rfl
        have setting : WritesOnly P (o.emitMark s.after lines ++ _) := .marked
          (.cons (i := .value (.classRef (id o.program ν))) rfl
            (.cons (i := .value (.string field)) rfl operand))
        simpa [MemberSummary.add, MemberTree.fields, emitPieces, Piece.emit] using written.append setting
  intro d among
  rw [(setup_of_mem among).2]
  exact fold c.members ⟨ν, [], .empty, .empty, []⟩ .nil fun t among =>
    known.mono fun _ here => List.mem_flatMap_of_mem among here

/-- What the code that starts the items so far writes. -/
structure ItemSummary.BindsOnly (P : String → Prop) (o : LoweringOptions) (s : ItemSummary) : Prop where
  count : s.definitions.length = s.after.procedures
  setups : ∀ id ∈ s.setups, ∃ d, s.definitions[id.index]? = some d ∧ WritesOnly P (emitPieces o d.body)
  body : WritesOnly P (emitPieces o s.body)

theorem ItemSummary.bindsOnly_add {s : ItemSummary} (written : s.BindsOnly P o) (item : Item)
    (known : Admits o.program C item.calls) (noted : ∀ name ∈ item.noted, P name)
    (bound : ∀ name ∈ item.bound, P name) : (s.add o.program item).BindsOnly P o := by
  obtain ⟨ds, _, yields, definitions, _⟩ := Assembler.lowerItem_yields (o := o) s item
  have kept {k : Nat} {d : Definition} (found : s.definitions[k]? = some d) :
      (s.add o.program item).definitions[k]? = some d := by
    rw [definitions, List.getElem?_append_left (List.getElem?_eq_some_iff.mp found).1, found]
  have setups : ∀ id ∈ s.setups, ∃ d, (s.add o.program item).definitions[id.index]? = some d ∧
      WritesOnly P (emitPieces o d.body) := fun id among =>
    let ⟨d, found, only⟩ := written.setups id among
    ⟨d, kept found, only⟩
  have count : (s.add o.program item).definitions.length = (s.add o.program item).after.procedures := by
    rw [definitions, List.length_append, written.count, yields.count.1]
  cases item with
  | function f => exact ⟨count, setups, written.body⟩
  | classDef c =>
    refine ⟨count, List.forall_mem_append.mpr ⟨setups, fun id among => ?_⟩, written.body⟩
    obtain ⟨d, member, rfl⟩ := List.mem_map.mp among
    refine ⟨d, ?_, c.setup_writesOnly calls s.after known d member⟩
    -- The setup of a class has the number behind those of its methods.
    change (s.definitions ++ c.definitions o.program s.after)[_]? = _
    rw [ClassTree.definitions, (ClassTree.setup_of_mem member).1, c.summary_count, ← List.append_assoc, ← written.count,
      ← List.length_append]
    exact List.getElem?_concat_length
  | statement t =>
    refine ⟨count, setups, ?_⟩
    have both := written.body.append (t.writesOnly calls s.after known noted bound)
    simpa [ItemSummary.add, emitPieces, Piece.emit, emitBlock] using both

theorem ModuleTree.summary_bindsOnly (t : ModuleTree) (known : Admits o.program C t.calls)
    (noted : ∀ name ∈ t.noted, P name) (bound : ∀ name ∈ t.bound, P name) : (t.summary o.program).BindsOnly P o := by
  have fold (items : List Item) (s : ItemSummary) (written : s.BindsOnly P o)
      (each : ∀ item ∈ items, item ∈ t.items) :
      (items.foldl (ItemSummary.add o.program) s).BindsOnly P o := by
    induction items generalizing s with
    | nil => exact written
    | cons item rest ih =>
      obtain ⟨among, others⟩ := List.forall_mem_cons.mp each
      refine ih _ (ItemSummary.bindsOnly_add calls written item ?_ ?_ ?_) others
      · exact known.mono fun _ here => List.mem_flatMap_of_mem among here
      · exact fun name here => noted name (List.mem_flatMap_of_mem among here)
      · exact fun name here => bound name (List.mem_flatMap_of_mem among here)
  exact fold t.items _ ⟨rfl, List.forall_mem_nil _, .nil⟩ fun _ => id

end

/-- In a chart, a machine writes what its code does. -/
theorem Machine.InChart.written {P : String → Prop} {c : Chart} {own : String → Nat → Prop} {code : Array Instruction}
    {host : Host} {calls : Calls} {start m : Machine} {name : String} {v : Value}
    (inside : InChart c code host calls start m) (maps : c.Maps own code) (only : WritesOnly P code.toList)
    (write : m.write? = some (name, v)) (plain : isHidden name = false) : P name := by
  obtain ⟨i, next, marks, uses⟩ := inside.uses maps write
  have writer : i.isWriter = true := write?_isWriter (inside.1 ▸ marks.found) write
  rw [← Nat.zero_add m.frame.pc] at uses
  exact only maps (.whole code) (Array.getElem?_toList.trans marks.found) writer uses plain

namespace Program

variable {source file : String} {o : LoweringOptions} {t : ModuleTree} (parsed : ModuleTree.ofSource source = .ok t)
  (none : ∀ c ∈ t.calls, ¬ c.Assigns)
include parsed none

/-- The code that starts a program writes only what the code of the top level binds. -/
theorem ofSource_startup {id : ProcedureId} (startup : id ∈ (ofSource source file o).startup) :
    ∃ p, (ofSource source file o).procedures[id.index]? = some p ∧
      WritesOnly (fun name => name ∈ t.noted ∨ name ∈ t.bound) p.code.toList := by
  have tagged := ModuleTree.ofSource_gives source
  rw [parsed] at tagged
  obtain ⟨parts, same, lowered⟩ := ofSource_eq file o parsed
  have written := t.summary_bindsOnly (o := o) callsOnly_isNoAssignment (admits_isNoAssignment tagged none)
    (fun _ => Or.inl) fun _ => Or.inr
  rw [same] at startup ⊢
  change id ∈ parts.classSetups ++ parts.topLevel.toList at startup
  change ∃ p, parts.procedures[id.index]? = some p ∧ _
  suffices ∃ d, (t.definitions o.program)[id.index]? = some d ∧ WritesOnly _ (emitPieces o d.body) by
    obtain ⟨d, found, only⟩ := this
    refine ⟨d.procedure o, ?_, by simpa [Definition.procedure] using only⟩
    rw [← Array.getElem?_toList, lowered.procedures, List.getElem?_map, found]
    rfl
  rw [lowered.classSetups, lowered.topLevel] at startup
  rcases List.mem_append.mp startup with setup | top
  · obtain ⟨d, found, only⟩ := written.setups id setup
    refine ⟨d, ?_, only⟩
    rw [ModuleTree.definitions, List.getElem?_append_left (List.getElem?_eq_some_iff.mp found).1, found]
  · obtain rfl := List.mem_singleton.mp top
    refine ⟨⟨moduleProcedure, [], .none, 1, (t.summary o.program).body⟩, ?_, written.body⟩
    rw [ModuleTree.definitions, ← written.count]
    exact List.getElem?_concat_length

/-- Whatever becomes of its frames, the code that starts a program writes to the name of a class only by a loop, by a
handler or by a definition in a block. -/
theorem ofSource_startup_writes {id : ProcedureId} {p : Procedure} (startup : id ∈ (ofSource source file o).startup)
    (found : (ofSource source file o).procedures[id.index]? = some p) {host : Host} {calls : Calls} {f : Frame}
    {s : State} {m : Machine} {name : String} {v : Value} (fresh : f.IsFresh p)
    (reached : Machine.Reaches host calls ⟨f, s⟩ m) (write : m.write? = some (name, v)) (isClass : name ∈ t.classNames) : name ∈ t.bound := by
  obtain ⟨q, here, only⟩ := ofSource_startup parsed none startup
  obtain rfl : p = q := Option.some.inj (found.symm.trans here)
  obtain ⟨home, a, b, c, entry, marks⟩ := ofSource_charted parsed none (Array.mem_of_getElem? found)
  have maps : c.Maps (Own p.code home a b) p.code := fun pc below => (marks pc (Nat.zero_le pc) below).2
  have inside := (Machine.InChart.entered fresh s (entry.imp_right And.left)).reached maps reached
  have plain : isHidden name = false := by
    obtain ⟨i, among, named⟩ := List.mem_filterMap.mp isClass
    refine ModuleTree.ofSource_plain parsed name (List.mem_flatMap_of_mem among ?_)
    cases i with
    | classDef c =>
      cases named
      exact List.mem_cons_self
    | _ => cases named
  exact (inside.written maps only write plain).resolve_left ((ModuleTree.ofSource_classNames parsed).2 name isClass)

end Program

/-- A function that is defined in a block takes the place of a class. -/
example :
    let p : Program := .ofSource "class C { } if (true) { def C() { } }" "demo" ⟨0, false⟩
    let s : State := ⟨(Store.empty.addProgram p).2, .start⟩
    (match (finalState ((Engine.mk .none 2 100).start 0 s)).store.program 0 |>.members.get? "C" with
      | some (.procedure _) => true
      | _ => false) = true := by
  decide +kernel

end ScriptEngine
