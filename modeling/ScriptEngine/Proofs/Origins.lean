import ScriptEngine.Proofs.Definitions
import ScriptEngine.Proofs.Spelling
import ScriptEngine.Store.Holding

/-! # Where definitions come from

The definitions of a module spell only calls of the module, and what they, the classes and the members refer
to is of the program that the module is compiled for. Both are shown in one walk over the tree.
-/

namespace ScriptEngine

/-- Procedures and classes of a program. -/
def Holder.IsOf (program : ProgramId) : Holder → Prop
  | .cell .. => False
  | .procedure id => id.program = program
  | .classDef id => id.program = program

/-- A value that holds only procedures and classes of a program. -/
def Value.IsOf (program : ProgramId) (v : Value) : Prop := ∀ h ∈ v.holders, h.IsOf program

/-- A class whose statics and methods are of a program. -/
structure ClassDef.IsOf (program : ProgramId) (c : ClassDef) : Prop where
  statics : ∀ entry ∈ c.statics.entries, entry.2.IsOf program
  methods : ∀ entry ∈ c.methods.entries, entry.2.program = program

variable {program : ProgramId}

theorem Value.isOf_of_holders {v : Value} (none : v.holders = []) : v.IsOf program := by
  simp [IsOf, none]

theorem Literal.toValue_isOf (l : Literal) : l.toValue.IsOf program := by
  cases l <;> exact Value.isOf_of_holders rfl

theorem Value.procedure_isOf {id : ProcedureId} (here : id.program = program) :
    (Value.procedure id).IsOf program := by
  simpa [IsOf, holders, Holder.IsOf] using here

theorem Value.classRef_isOf {id : ClassId} (here : id.program = program) :
    (Value.classRef id).IsOf program := by
  simpa [IsOf, holders, Holder.IsOf] using here

/-- The calls of a stretch of a body. -/
def Piece.calls : Piece → List SpelledCall
  | .block _ body => blockCalls body
  | .field _ _ _ _ _ value => value.calls

/-- The calls of a definition. -/
def Definition.calls (d : Definition) : List SpelledCall := d.body.flatMap Piece.calls

variable {calls : List SpelledCall}

/-- A stretch that spells only some calls, and that sets only fields of classes of a program. -/
structure Piece.Within (program : ProgramId) (calls : List SpelledCall) (p : Piece) : Prop where
  spells : ∀ c ∈ p.calls, c ∈ calls
  owner : ∀ ν id lines name place value, p = .field ν id lines name place value →
    id.program = program

/-- A definition of a program that spells only some calls. -/
structure Definition.Within (program : ProgramId) (calls : List SpelledCall) (d : Definition) :
    Prop where
  owner : ∀ c, d.owner = some c → c.program = program
  body : ∀ p ∈ d.body, p.Within program calls

theorem Definition.Within.spells {d : Definition} (within : d.Within program calls) :
    ∀ c ∈ d.calls, c ∈ calls := by
  intro c here
  obtain ⟨p, among, there⟩ := List.mem_flatMap.mp here
  exact (within.body p among).spells c there

theorem Piece.within_block (ν : Numbering) {body : List Stmt}
    (spells : ∀ c ∈ blockCalls body, c ∈ calls) : (Piece.block ν body).Within program calls :=
  ⟨spells, by rintro ν id lines name place value ⟨⟩⟩

/-- The definition of a block of statements. -/
theorem Definition.within_block {name : String} {params : List ParamTree} {owner : Option ClassId}
    {line : Nat} (ν : Numbering) {body : List Stmt} (owned : ∀ c, owner = some c → c.program = program)
    (spells : ∀ c ∈ blockCalls body, c ∈ calls) :
    (⟨name, params, owner, line, [.block ν body]⟩ : Definition).Within program calls := by
  refine ⟨owned, fun p member => ?_⟩
  rw [List.mem_singleton.mp member]
  exact Piece.within_block ν spells

mutual

theorem Stmt.definitions_within (ν : Numbering) (s : Stmt) (among : ∀ c ∈ s.calls, c ∈ calls) :
    ∀ d ∈ s.definitions ν, d.Within program calls := by
  cases s with
  | eval | assign | ret => simp [Stmt.definitions]
  | branch line condition body otherwise =>
    obtain ⟨⟨_, bodies⟩, rests⟩ := (List.forall_mem_append.mp among).imp_left List.forall_mem_append.mp
    exact List.forall_mem_append.mpr
      ⟨blockDefinitions_within _ body bodies, otherwise.definitions_within _ rests⟩
  | whileLoop line condition body =>
    exact blockDefinitions_within _ body (List.forall_mem_append.mp among).2
  | forLoop place name namePlace items body =>
    exact blockDefinitions_within _ body (List.forall_mem_append.mp among).2
  | guarded line body binding handler =>
    obtain ⟨bodies, handlers⟩ := List.forall_mem_append.mp among
    exact List.forall_mem_append.mpr
      ⟨blockDefinitions_within _ body bodies, blockDefinitions_within _ handler handlers⟩
  | define place name params body =>
    refine List.forall_mem_append.mpr ⟨blockDefinitions_within _ body among, ?_⟩
    rw [List.forall_mem_singleton]
    exact Definition.within_block _ (by simp) among

theorem blockDefinitions_within (ν : Numbering) (body : List Stmt)
    (among : ∀ c ∈ blockCalls body, c ∈ calls) :
    ∀ d ∈ blockDefinitions ν body, d.Within program calls := by
  cases body with
  | nil => simp [blockDefinitions]
  | cons s rest =>
    obtain ⟨first, others⟩ := List.forall_mem_append.mp among
    exact List.forall_mem_append.mpr
      ⟨s.definitions_within ν first, blockDefinitions_within _ rest others⟩

theorem Otherwise.definitions_within (ν : Numbering) (otherwise : Otherwise)
    (among : ∀ c ∈ otherwise.calls, c ∈ calls) :
    ∀ d ∈ otherwise.definitions ν, d.Within program calls := by
  cases otherwise with
  | nothing => simp [Otherwise.definitions]
  | block body => exact blockDefinitions_within ν body among
  | branch condition body otherwise =>
    obtain ⟨⟨_, bodies⟩, rests⟩ := (List.forall_mem_append.mp among).imp_left List.forall_mem_append.mp
    exact List.forall_mem_append.mpr
      ⟨blockDefinitions_within _ body bodies, otherwise.definitions_within _ rests⟩

end

theorem FunctionTree.definitions_within (f : FunctionTree) (name : String) {owner : Option ClassId}
    (ν : Numbering) (owned : ∀ c, owner = some c → c.program = program)
    (among : ∀ c ∈ blockCalls f.body, c ∈ calls) :
    ∀ d ∈ f.definitions name owner ν, d.Within program calls := by
  refine List.forall_mem_append.mpr ⟨blockDefinitions_within ν f.body among, ?_⟩
  rw [List.forall_mem_singleton]
  exact Definition.within_block _ owned among

/-- Only some calls are in the members of a class so far, and what these are is of a program. -/
structure MemberSummary.Within (program : ProgramId) (calls : List SpelledCall) (s : MemberSummary) :
    Prop where
  definitions : ∀ d ∈ s.definitions, d.Within program calls
  fields : ∀ p ∈ s.fields, p.Within program calls
  statics : ∀ entry ∈ s.statics.entries, entry.2.IsOf program
  methods : ∀ entry ∈ s.methods.entries, entry.2.program = program

theorem MemberSummary.within_add {s : MemberSummary} (within : s.Within program calls)
    (className : String) {owner : ClassId} (owned : owner.program = program) (m : MemberTree)
    (among : ∀ c ∈ m.calls, c ∈ calls) : (s.add className owner m).Within program calls := by
  have owner_of (c : ClassId) (same : some owner = some c) : c.program = program := by
    cases same
    exact owned
  cases m with
  | method f =>
    exact ⟨List.forall_mem_append.mpr ⟨within.definitions, f.definitions_within _ _ owner_of among⟩,
      List.forall_mem_append.mpr ⟨within.fields, by simp [MemberTree.fields]⟩, within.statics,
      Table.forall_put (P := fun id : ProcedureId => id.program = program) within.methods owned⟩
  | staticMethod f =>
    exact ⟨List.forall_mem_append.mpr ⟨within.definitions, f.definitions_within _ _ owner_of among⟩,
      List.forall_mem_append.mpr ⟨within.fields, by simp [MemberTree.fields]⟩,
      Table.forall_put within.statics (Value.procedure_isOf owned), within.methods⟩
  | staticField lines field place value =>
    refine ⟨List.forall_mem_append.mpr ⟨within.definitions, by simp [MemberTree.definitions]⟩,
      List.forall_mem_append.mpr ⟨within.fields, ?_⟩, within.statics, within.methods⟩
    rw [MemberTree.fields, List.forall_mem_singleton]
    refine ⟨among, ?_⟩
    rintro ν id lines name place value ⟨⟩
    exact owned

theorem ClassTree.summary_within (c : ClassTree) (program : ProgramId) (ν : Numbering) :
    (c.summary program ν).Within program c.calls := by
  have fold (members : List MemberTree) (s : MemberSummary) (within : s.Within program c.calls)
      (among : ∀ m ∈ members, ∀ call ∈ m.calls, call ∈ c.calls) :
      (members.foldl (MemberSummary.add c.name (id program ν)) s).Within program c.calls := by
    induction members generalizing s with
    | nil => exact within
    | cons m rest ih =>
      exact ih _ (MemberSummary.within_add within _ rfl m (among m List.mem_cons_self))
        fun m' member => among m' (List.mem_cons_of_mem _ member)
  refine fold c.members _ ⟨by simp, by simp, by simp [Table.empty], by simp [Table.empty]⟩ ?_
  exact fun m member call here => List.mem_flatMap.mpr ⟨m, member, here⟩

theorem ClassTree.definitions_within (c : ClassTree) (program : ProgramId) (ν : Numbering) :
    ∀ d ∈ c.definitions program ν, d.Within program c.calls := by
  have within := c.summary_within program ν
  refine List.forall_mem_append.mpr ⟨within.definitions, fun d member => ?_⟩
  unfold ClassTree.setup at member
  split at member
  · cases member
  · rw [List.mem_singleton.mp member]
    refine ⟨?_, within.fields⟩
    rintro _ ⟨⟩
    rfl

theorem Definition.Within.mono {d : Definition} {more : List SpelledCall}
    (within : d.Within program calls) (among : ∀ c ∈ calls, c ∈ more) : d.Within program more :=
  ⟨within.owner, fun p member =>
    ⟨fun c here => among c ((within.body p member).spells c here), (within.body p member).owner⟩⟩

/-- Only some calls are in the items of a module so far, and what these are is of a program. -/
structure ItemSummary.Within (program : ProgramId) (calls : List SpelledCall) (s : ItemSummary) :
    Prop where
  definitions : ∀ d ∈ s.definitions, d.Within program calls
  classes : ∀ c ∈ s.classes, c.IsOf program
  members : ∀ entry ∈ s.members.entries, entry.2.IsOf program
  setups : ∀ id ∈ s.setups, id.program = program
  body : ∀ p ∈ s.body, p.Within program calls

theorem ItemSummary.within_add {s : ItemSummary} (within : s.Within program calls) (item : Item)
    (among : ∀ c ∈ item.calls, c ∈ calls) : (s.add program item).Within program calls := by
  cases item with
  | function f =>
    have own : (Value.procedure (f.id program s.after)).IsOf program := Value.procedure_isOf rfl
    have procedure : ∀ entry ∈ (s.members.set f.name (.procedure (f.id program s.after))).entries,
        entry.2.IsOf program := Table.forall_put within.members own
    exact ⟨List.forall_mem_append.mpr
      ⟨within.definitions, f.definitions_within _ _ (by simp) among⟩,
      within.classes, procedure, within.setups, within.body⟩
  | classDef c =>
    have own : (Value.classRef (ClassTree.id program s.after)).IsOf program := Value.classRef_isOf rfl
    have classRef : ∀ entry ∈ (s.members.set c.name (.classRef (ClassTree.id program s.after))).entries,
        entry.2.IsOf program := Table.forall_put within.members own
    have summary := c.summary_within program s.after
    refine ⟨List.forall_mem_append.mpr ⟨within.definitions, fun d member => ?_⟩,
      List.forall_mem_append.mpr ⟨within.classes, ?_⟩, classRef,
      List.forall_mem_append.mpr ⟨within.setups, fun id member => ?_⟩, within.body⟩
    · exact (c.definitions_within program s.after d member).mono among
    · rw [List.forall_mem_singleton]
      exact ⟨summary.statics, summary.methods⟩
    · obtain ⟨_, _, rfl⟩ := List.mem_map.mp member
      rfl
  | statement t =>
    refine ⟨List.forall_mem_append.mpr ⟨within.definitions, t.definitions_within _ among⟩,
      within.classes, within.members, within.setups, List.forall_mem_append.mpr ⟨within.body, ?_⟩⟩
    rw [List.forall_mem_singleton]
    exact Piece.within_block _ (by simpa [Item.calls, blockCalls] using among)

theorem ModuleTree.summary_within (m : ModuleTree) (program : ProgramId) :
    (m.summary program).Within program m.calls := by
  have fold (items : List Item) (s : ItemSummary) (within : s.Within program m.calls)
      (among : ∀ i ∈ items, ∀ c ∈ i.calls, c ∈ m.calls) :
      (items.foldl (ItemSummary.add program) s).Within program m.calls := by
    induction items generalizing s with
    | nil => exact within
    | cons i rest ih =>
      exact ih _ (ItemSummary.within_add within i (among i List.mem_cons_self))
        fun i' member => among i' (List.mem_cons_of_mem _ member)
  refine fold m.items _ ⟨by simp, by simp, by simp [Table.empty], by simp, by simp⟩ ?_
  exact fun i member c here => List.mem_flatMap.mpr ⟨i, member, here⟩

/-- The definitions of a module are of its program and spell only calls of the module. -/
theorem ModuleTree.definitions_within (m : ModuleTree) (program : ProgramId) :
    ∀ d ∈ m.definitions program, d.Within program m.calls := by
  have within := m.summary_within program
  refine List.forall_mem_append.mpr ⟨within.definitions, ?_⟩
  rw [List.forall_mem_singleton]
  exact ⟨by rintro c ⟨⟩, within.body⟩

end ScriptEngine
