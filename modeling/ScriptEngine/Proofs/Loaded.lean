import Mathlib.Logic.Relation
import ScriptEngine.Engine
import ScriptEngine.Proofs.Calling
import ScriptEngine.Proofs.WellFormed

/-! # Loaded programs

What a program refers to when it is loaded is its own: its constants, classes and members lead only to
procedures and classes of the same program. The zone of a program in a store is all that leads nowhere else.
A program is at home in a store if it is alive, its code is sound, and nothing in its zone leads out of it; a
program that was just loaded is.
-/

namespace ScriptEngine

/-- An instruction that sends nothing and pushes no reference. -/
def Instruction.isPlain : Instruction → Bool
  | .value v => v.holders.isEmpty
  | .send _ => false
  | _ => true

/-- An instruction whose constant is of a program. -/
def Instruction.IsOf (program : ProgramId) (i : Instruction) : Prop := ∀ v, i = .value v → v.IsOf program

/-- An instruction that gives a member access the name of a member. -/
def Instruction.NamesMember (i : Instruction) : Prop :=
  ∀ site, i = .send site → site.name = "getMember" ∨ site.name = "setMember" → site.argc ≠ 0

section

variable {C P : Instruction → Prop} {is : List Instruction}

/-- Operand code consists of what is known of constants and calls, and of plain instructions. -/
theorem Pushes.forall_mem (known : ∀ i, C i → P i) (plain : ∀ i, i.isPlain = true → P i) {n : Nat}
    (h : Pushes C n is) : ∀ i ∈ is, P i := by
  induction h with
  | nil => simp
  | append _ _ first second => exact List.forall_mem_append.mpr ⟨first, second⟩
  | value here => simpa using known _ here
  | load name place => simpa using plain (.load name place) rfl
  | call here _ operands | send here _ operands =>
    exact List.forall_mem_append.mpr ⟨operands, by simpa using known _ here⟩
  | shortCircuit decided _ _ _ left right =>
    simp only [Fragment.shortCircuit, List.forall_mem_append, List.forall_mem_cons]
    exact ⟨⟨left, plain _ rfl, right⟩, plain _ rfl, plain _ rfl, by simp⟩

theorem Balanced.forall_mem (known : ∀ i, C i → P i) (plain : ∀ i, i.isPlain = true → P i)
    (h : Balanced C is) : ∀ i ∈ is, P i := by
  have operands {n : Nat} {a : List Instruction} (h : Pushes C n a) : ∀ i ∈ a, P i :=
    h.forall_mem known plain
  induction h with
  | nil => simp
  | append _ _ first second => exact List.forall_mem_append.mpr ⟨first, second⟩
  | stop index lines => simpa using plain (.stop index lines) rfl
  | drop value | ret value =>
    exact List.forall_mem_append.mpr ⟨operands value, by simpa using plain _ rfl⟩
  | assign name place value =>
    simp only [Fragment.assign, List.forall_mem_append, List.forall_mem_cons]
    exact ⟨⟨plain _ rfl, operands value⟩, plain _ rfl, by simp⟩
  | skipIf _ condition _ body =>
    simp only [Fragment.skipIf, List.forall_mem_append, List.forall_mem_cons]
    exact ⟨operands condition, plain _ rfl, body⟩
  | choose condition _ _ body rest =>
    simp only [Fragment.choose, List.forall_mem_append, List.forall_mem_cons]
    exact ⟨⟨operands condition, plain _ rfl, body⟩, plain _ rfl, rest⟩
  | whileLoop condition _ body =>
    simp only [Fragment.whileLoop, List.forall_mem_append, List.forall_mem_cons]
    exact ⟨⟨operands condition, plain _ rfl, body⟩, plain _ rfl, by simp⟩
  | guarded binding _ _ body handler =>
    simp only [Fragment.guarded, List.forall_mem_append, List.forall_mem_cons]
    exact ⟨⟨plain _ rfl, body⟩, plain _ rfl, plain _ rfl, plain _ rfl, handler⟩

end

/-- What is known of the calls of a source that neither calls `set` by name nor leaves out the name of a
member. -/
structure Instruction.IsOrderly (program : ProgramId) (i : Instruction) : Prop where
  noAssignment : ∀ site, i = .call site → site.name ≠ "set"
  own : i.IsOf program
  named : i.NamesMember

variable {program : ProgramId}

theorem admits_orderly {calls : List SpelledCall} (tagged : AllTagged calls)
    (plain : ∀ c ∈ calls, ¬ c.Assigns ∧ ¬ c.LacksMember) :
    Admits program (Instruction.IsOrderly program) calls := by
  refine ⟨fun v own => ?_, fun i made => ?_, fun c member place => ?_, tagged⟩
  · refine ⟨by rintro site ⟨⟩, ?_, by rintro site ⟨⟩⟩
    rintro w ⟨⟩
    exact own
  · cases made with
    | pair | list | map =>
      refine ⟨?_, by rintro v ⟨⟩, by rintro site ⟨⟩⟩
      rintro site ⟨⟩
      simp [CallSite.positional]
    | getMember | setMember | getItem | setItem | element =>
      refine ⟨by rintro site ⟨⟩, by rintro v ⟨⟩, ?_⟩
      rintro site ⟨⟩ _
      simp
    | size =>
      refine ⟨by rintro site ⟨⟩, by rintro v ⟨⟩, ?_⟩
      rintro site ⟨⟩ named
      simp [CallSite.positional] at named
    | unary op =>
      refine ⟨by rintro site ⟨⟩, by rintro v ⟨⟩, ?_⟩
      rintro site ⟨⟩ named
      cases op <;> simp [CallSite.positional, UnaryOp.method] at named
    | binary op =>
      refine ⟨by rintro site ⟨⟩, by rintro v ⟨⟩, ?_⟩
      rintro site ⟨⟩ _
      simp
  · obtain ⟨assigns, lacks⟩ := plain c member
    have count : c.keywords.length = c.count := tagged c member
    unfold SpelledCall.instruction
    split
    · next method =>
      refine ⟨by rintro site ⟨⟩, by rintro v ⟨⟩, ?_⟩
      rintro site ⟨⟩ named none
      exact lacks ⟨method, named, count ▸ none⟩
    · next byName =>
      refine ⟨?_, by rintro v ⟨⟩, by rintro site ⟨⟩⟩
      rintro site ⟨⟩ named
      exact assigns ⟨by simpa using byName, named⟩

/-- A procedure whose constants are of a program. -/
def Procedure.IsOf (program : ProgramId) (p : Procedure) : Prop := ∀ h ∈ p.holders, h.IsOf program

theorem Definition.procedure_isOf {o : LoweringOptions} {d : Definition}
    (own : ∀ i ∈ emitPieces o d.body, i.IsOf program) : (d.procedure o).IsOf program := by
  refine List.forall_mem_append.mpr ⟨?_, ?_⟩
  · simp only [List.forall_mem_flatMap, Definition.procedure, List.forall_mem_map]
    intro p _ v default
    obtain ⟨l, _, rfl⟩ : ∃ l, p.default = some l ∧ l.toValue = v := by
      simpa [ParamTree.parameter] using default
    exact l.toValue_isOf
  · simp only [List.forall_mem_flatMap, Definition.procedure]
    intro i member h here
    cases i with
    | value v => exact own _ (by simpa using member) v rfl h here
    | _ => cases here

/-- The procedures of a module that neither calls `set` by name nor leaves out the name of a member are
sound. -/
theorem ModuleTree.procedures_sound {m : ModuleTree} (o : LoweringOptions) (tagged : AllTagged m.calls)
    (plain : ∀ c ∈ m.calls, ¬ c.Assigns ∧ ¬ c.LacksMember) :
    ∀ d ∈ m.definitions o.program,
      (d.procedure o).Sound o.program ∧ (d.procedure o).IsOf o.program := by
  intro d member
  have balanced := m.balanced o (admits_orderly tagged plain) d member
  have own : ∀ i ∈ (d.procedure o).code.toList, i.IsOf o.program := by
    refine balanced.forall_mem (fun i known => known.own) fun i isPlain v same => ?_
    subst same
    exact Value.isOf_of_holders (List.isEmpty_iff.mp isPlain)
  have named : ∀ i ∈ (d.procedure o).code.toList, i.NamesMember := by
    refine balanced.forall_mem (fun i known => known.named) fun i isPlain site same => ?_
    subst same
    cases isPlain
  refine ⟨⟨balanced.layout fun site known => known.noAssignment site rfl, ?_, ?_⟩, ?_⟩
  · exact fun site among => named _ (Array.mem_toList_iff.mpr among) site rfl
  · exact (m.definitions_within o.program d member).owner
  · exact Definition.procedure_isOf fun i among => own i (by simpa [Definition.procedure] using among)

/-- A program that refers only to itself, with sound procedures. -/
structure Program.IsOwn (program : ProgramId) (p : Program) : Prop where
  sound : ∀ q ∈ p.procedures, q.Sound program
  constants : ∀ q ∈ p.procedures, q.IsOf program
  classes : ∀ c ∈ p.classes, c.IsOf program
  holders : ∀ h ∈ p.holders, h.IsOf program
  alive : p.released = false

theorem Program.ofSource_isOwn {source file : String} {o : LoweringOptions} {m : ModuleTree}
    (parsed : ModuleTree.ofSource source = .ok m)
    (plain : ∀ c ∈ m.calls, ¬ c.Assigns ∧ ¬ c.LacksMember) :
    (Program.ofSource source file o).IsOwn o.program := by
  have tagged := ModuleTree.ofSource_gives source
  rw [parsed] at tagged
  obtain ⟨parts, same, lowered⟩ := Program.ofSource_eq file o parsed
  have within := m.summary_within o.program
  have sound (q : Procedure) (member : q ∈ parts.procedures) :
      q.Sound o.program ∧ q.IsOf o.program := by
    obtain ⟨d, among, rfl⟩ := lowered.mem_procedures_iff.mp member
    exact m.procedures_sound o tagged plain d among
  rw [same]
  refine ⟨fun q member => (sound q member).1, fun q member => (sound q member).2, ?_, ?_, rfl⟩
  · intro c member
    refine within.classes c ?_
    rw [← lowered.classes]
    exact Array.mem_toList_iff.mpr member
  · change ∀ h ∈ (parts.topLevel.toList ++ parts.classSetups).map Holder.procedure ++
      bindingHolders parts.members ++ [].flatMap Value.holders, h.IsOf o.program
    rw [List.flatMap_nil, List.append_nil, lowered.topLevel, lowered.classSetups, lowered.members,
      List.forall_mem_append, List.forall_mem_map]
    refine ⟨fun id member => ?_, ?_⟩
    · rcases List.mem_cons.mp member with rfl | setup
      · rfl
      · exact within.setups id setup
    · exact List.forall_mem_flatMap.mpr within.members

/-- Whether something is no procedure or class of another program. -/
def Holder.IsNotForeign (program : ProgramId) : Holder → Prop
  | .cell .. => True
  | .procedure id => id.program = program
  | .classDef id => id.program = program

/-- One thing in a store holds another, directly or through others. -/
def Store.LeadsTo (s : Store) : Holder → Holder → Prop := Relation.ReflTransGen fun h other => other ∈ s.heldBy h

/-- All in a store that leads to no procedure or class of another program. Its frames run sound procedures, and its
calls break no invariant. -/
def Store.zone (s : Store) (program : ProgramId) : Zone where
  program := program
  procedures := (s.program program).procedures
  cells := fun kind index => ∀ h, s.LeadsTo (.cell kind index) h → h.IsNotForeign program
  runs := fun id => id.program = program
  own := fun _ here => here
  fits := fun p => p.Sound program
  errors := ScriptError.IsOrderly

/-- A program at home in a store: nothing that it can come across leads to another program, and its
procedures are sound. -/
structure Store.Houses (s : Store) (program : ProgramId) : Prop where
  settled : (s.zone program).Settled s
  sound : (s.zone program).Sound

/-- What a zone may have: any cell, procedures that can be called, and classes of its program. -/
def Zone.Allows (z : Zone) : Holder → Prop
  | .cell .. => True
  | .procedure id => z.runs id
  | .classDef id => id.program = z.program

/-- A zone with all cells of a store that lead only to what it allows. -/
def Zone.grow (z : Zone) (s : Store) : Zone :=
  { z with
    procedures := (s.program z.program).procedures
    cells := fun kind index => ∀ h, s.LeadsTo (.cell kind index) h → z.Allows h }

variable {z : Zone} {s s₀ : Store}

/-- Where nothing leads out of a zone, what is in it leads to nothing else. -/
theorem Zone.Settled.leadsTo (settled : z.Settled s) {h other : Holder} (has : z.Has h)
    (leads : s.LeadsTo h other) : z.Has other := by
  induction leads with
  | refl => exact has
  | tail _ held ih => exact settled.held _ ih _ held

theorem Zone.Has.allowed {h : Holder} (has : z.Has h) : z.Allows h := by
  cases h with
  | cell => trivial
  | procedure => exact has
  | classDef => exact has

/-- What is in a zone that nothing leads out of is in the largest such zone. -/
theorem Zone.Settled.has_grow (settled : z.Settled s) {h : Holder} (has : z.Has h) : (z.grow s).Has h := by
  cases h with
  | cell kind index => exact fun other leads => (settled.leadsTo has leads).allowed
  | procedure => exact has
  | classDef => exact has

/-- What a cell leads to that leads only to what a zone allows is in the grown zone. -/
theorem Zone.grow_held {kind : CellKind} {index : Nat} {other : Holder} (stays : (z.grow s).cells kind index)
    (held : other ∈ s.heldBy (.cell kind index)) : (z.grow s).Has other := by
  have onward (h : Holder) (leads : s.LeadsTo other h) : z.Allows h := stays h (.head held leads)
  cases other with
  | cell kind' index' => exact onward
  | procedure => exact onward _ .refl
  | classDef => exact onward _ .refl

/-- A cell that was not made yet holds nothing. -/
theorem Store.heldBy_of_count_le {kind : CellKind} {index : Nat} (beyond : s.count kind ≤ index) :
    s.heldBy (.cell kind index) = [] := by
  have none {α : Type} {cells : Array α} (d : α) (beyond : cells.size ≤ index) :
      cells.getD index d = d := by
    rw [Array.getD_eq_getD_getElem?, Array.getElem?_eq_none beyond]
    rfl
  cases kind with
  | list => simp only [Store.heldBy, Store.list, none _ beyond, List.flatMap_nil]
  | map => simp only [Store.heldBy, Store.map, none _ beyond, Dict.empty, List.flatMap_nil]
  | set => simp only [Store.heldBy, Store.set, none _ beyond, Dict.empty, Dict.keys, List.map_nil,
      List.flatMap_nil]
  | inst => simp only [Store.heldBy, Array.getElem?_eq_none (show s.instances.size ≤ index from beyond)]
  | native =>
    simp only [Store.heldBy, Store.native, none _ beyond]
    rfl
  | object =>
    simp only [Store.heldBy, Store.object, none _ beyond]
    rfl

/-- A grown zone is settled if its program is alive and neither that nor what can be called or is a class of it
holds anything else. -/
theorem Zone.grow_settled (called : ∀ id, z.runs id → ∀ other ∈ s.heldBy (.procedure id), (z.grow s).Has other)
    (classes : ∀ id : ClassId, id.program = z.program → ∀ other ∈ s.heldBy (.classDef id), (z.grow s).Has other)
    (roots : ∀ h ∈ (s.program z.program).holders, (z.grow s).Has h)
    (alive : (s.program z.program).released = false) : (z.grow s).Settled s where
  held := by
    intro h has other held
    cases h with
    | cell => exact Zone.grow_held has held
    | procedure id => exact called id has other held
    | classDef id => exact classes id has other held
  roots := roots
  alive := alive
  code := rfl
  fresh := by
    intro kind index beyond h leads
    cases leads.cases_head with
    | inl same =>
      subst same
      trivial
    | inr step =>
      obtain ⟨other, held, _⟩ := step
      rw [Store.heldBy_of_count_le beyond] at held
      cases held

/-- Wherever a zone is settled, so is the largest one of its kind. -/
theorem Zone.Settled.grow (settled : z.Settled s) : (z.grow s).Settled s :=
  Zone.grow_settled (fun id runs other held => settled.has_grow (settled.held (.procedure id) runs other held))
    (fun id here other held => settled.has_grow (settled.held (.classDef id) here other held))
    (fun h member => settled.has_grow (settled.roots h member)) settled.alive

theorem Zone.Sound.grow (sound : z.Sound) (settled : z.Settled s) : (z.grow s).Sound where
  code := by
    intro id runs
    change z.fits ((s.program z.program).procedures.getD id.index default)
    rw [settled.code]
    exact sound.code id runs
  owner := sound.owner
  orderly := sound.orderly

/-- A program stays at home wherever its zone is settled. -/
theorem Zone.Settled.houses (settled : (s₀.zone program).Settled s) (sound : (s₀.zone program).Sound) :
    s.Houses program := ⟨settled.grow, sound.grow settled⟩

/-- The zone of a program whose procedures are sound is a sound one. -/
theorem Store.zone_sound (all : ∀ p ∈ (s.program program).procedures, p.Sound program) :
    (s.zone program).Sound where
  code := by
    intro id _
    change Procedure.Sound program ((s.program program).procedures.getD id.index default)
    rw [Array.getD_eq_getD_getElem?]
    cases found : (s.program program).procedures[id.index]? with
    | none => exact Procedure.sound_default _
    | some p => exact all p (Array.mem_of_getElem? found)
  owner := fun _ sound => sound.owner
  orderly := fun _ orderly => orderly

theorem Holder.IsOf.has_zone {h : Holder} (own : h.IsOf program) : (s.zone program).Has h := by
  cases h with
  | cell => cases own
  | procedure => exact own
  | classDef => exact own

/-- A program that was just added to a store. -/
theorem Store.program_addProgram (s : Store) (p : Program) : (s.addProgram p).2.program s.programs.size = p := by
  simp [Store.addProgram, Store.program, Array.getD_eq_getD_getElem?]

theorem Store.program_addProgram_cases (s : Store) (p : Program) (id : ProgramId) :
    (s.addProgram p).2.program id = s.program id ∨ (s.addProgram p).2.program id = p := by
  simp only [Store.program, Store.addProgram, Array.getD_eq_getD_getElem?, Array.getElem?_push]
  split
  · exact .inr rfl
  · exact .inl rfl

/-- A program that refers only to itself is at home in a store to which it is added. -/
theorem Program.IsOwn.houses {p : Program} (own : p.IsOwn s.programs.size) :
    (s.addProgram p).2.Houses (s.addProgram p).1 := by
  have here := s.program_addProgram p
  refine ⟨Zone.grow_settled (z := (s.addProgram p).2.zone s.programs.size) ?_ ?_ ?_ ?_, Store.zone_sound ?_⟩
  · intro id same other held
    have same : id.program = s.programs.size := same
    refine Holder.IsOf.has_zone ?_
    change other ∈ ((s.addProgram p).2.procedure id).holders at held
    rw [Store.procedure, same, here, Array.getD_eq_getD_getElem?] at held
    cases found : p.procedures[id.index]? with
    | none =>
      rw [found] at held
      cases held
    | some q =>
      rw [found] at held
      exact own.constants q (Array.mem_of_getElem? found) other held
  · intro id same other held
    have same : id.program = s.programs.size := same
    refine Holder.IsOf.has_zone ?_
    change other ∈ (let c := (s.addProgram p).2.classDef id
      c.methods.entries.map (Holder.procedure ·.2) ++ bindingHolders c.statics) at held
    rw [Store.classDef, same, here, Array.getD_eq_getD_getElem?] at held
    cases found : p.classes[id.index]? with
    | none =>
      rw [found] at held
      cases held
    | some c =>
      rw [found] at held
      have owned := own.classes c (Array.mem_of_getElem? found)
      rcases List.mem_append.mp held with method | static
      · obtain ⟨entry, member, rfl⟩ := List.mem_map.mp method
        exact owned.methods entry member
      · obtain ⟨entry, member, among⟩ := List.mem_flatMap.mp static
        exact owned.statics entry member other among
  · intro h member
    change h ∈ ((s.addProgram p).2.program s.programs.size).holders at member
    rw [here] at member
    exact (own.holders h member).has_zone
  · change ((s.addProgram p).2.program s.programs.size).released = false
    rw [here]
    exact own.alive
  · intro q member
    change q ∈ ((s.addProgram p).2.program s.programs.size).procedures at member
    rw [here] at member
    exact own.sound q member

/-- A source text that neither calls `set` by name nor leaves out the name of a member is at home in the
state that it is loaded into. -/
theorem Engine.load_houses {source file : String} {breakpoints : Bool} {m : ModuleTree}
    (parsed : ModuleTree.ofSource source = .ok m)
    (plain : ∀ c ∈ m.calls, ¬ c.Assigns ∧ ¬ c.LacksMember) {ε : Type} {t t' : State} {id : ProgramId}
    (loaded : (Engine.load source file breakpoints : Exec ε ProgramId) t = .ok id t') :
    t'.store.Houses id := by
  cases loaded
  exact (Program.ofSource_isOwn (o := ⟨t.store.programs.size, breakpoints⟩) parsed plain).houses

end ScriptEngine
