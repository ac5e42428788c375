import ScriptEngine.Proofs.Assembling
import ScriptEngine.Proofs.Language
import ScriptEngine.Proofs.Origins

/-! # The numbers of procedures

Compiling numbers procedures and classes from zero on and leaves no number out. So the procedures that a compiled
module refers to are among those it has: those in its code, in its classes and among its members. Every class is
a member, as no later item takes the name of a class.
-/

namespace ScriptEngine

/-- The numbering counts the procedures and the classes that a step of compiling adds. -/
theorem Assembler.Yields.count {α : Type} {o : LoweringOptions} {ν μ : Numbering} {x : Assembler α} {a : α}
    {ds : List Definition} {cs : List ClassDef} (yields : Yields o ν x a ds cs μ) :
    μ.procedures = ν.procedures + ds.length ∧ μ.classes = ν.classes + cs.length := by
  let s : Assembly :=
    ⟨.replicate ν.procedures default, .replicate ν.classes default, .replicate ν.markers (.ofLines ⟨0, 0⟩), ν.loops⟩
  have at_ν : s.At o ν := ⟨rfl, Array.size_replicate, Array.size_replicate, fun _ => Array.size_replicate⟩
  obtain ⟨s', _, at_μ, procedures, classes⟩ := yields s at_ν
  have more := congrArg List.length procedures
  have further := congrArg List.length classes
  simp only [Array.length_toList, List.length_append, List.length_map] at more further
  rw [at_μ.procedures, at_ν.procedures] at more
  rw [at_μ.classes, at_ν.classes] at further
  exact ⟨more, further⟩

section

variable (ν : Numbering)

theorem Stmt.procedures_le (s : Stmt) : ν.procedures ≤ (s.after ν).procedures :=
  (Assembler.lowerStmt_yields (o := ⟨0, false⟩) ν s).count.1 ▸ Nat.le_add_right ..

theorem blockAfter_procedures_le (body : List Stmt) : ν.procedures ≤ (blockAfter ν body).procedures :=
  (Assembler.lowerBlock_yields (o := ⟨0, false⟩) ν body).count.1 ▸ Nat.le_add_right ..

theorem Otherwise.procedures_le (otherwise : Otherwise) : ν.procedures ≤ (otherwise.after ν).procedures :=
  (Assembler.lowerOtherwise_yields (o := ⟨0, false⟩) ν otherwise).count.1 ▸ Nat.le_add_right ..

theorem MemberTree.procedures_le (m : MemberTree) : ν.procedures ≤ (m.after ν).procedures := by
  cases m with
  | method f | staticMethod f => exact Nat.le_succ_of_le (blockAfter_procedures_le ν f.body)
  | staticField => exact Nat.le_refl _

end

/-- A value that holds nothing, or is a class of a program or one of its first `n` procedures. -/
inductive Value.IsNumbered (program : ProgramId) (n : Nat) : Value → Prop
  | plain {v : Value} (none : v.holders = []) : IsNumbered program n v
  | procedure {id : ProcedureId} (own : id.program = program) (below : id.index < n) :
    IsNumbered program n (.procedure id)
  | classRef {id : ClassId} (own : id.program = program) : IsNumbered program n (.classRef id)

/-- An instruction whose constant is such a value. -/
def Instruction.IsNumbered (program : ProgramId) (n : Nat) : Instruction → Prop
  | .value v => v.IsNumbered program n
  | _ => True

variable {program : ProgramId} {m n : Nat}

theorem Value.IsNumbered.mono {v : Value} (numbered : v.IsNumbered program m) (le : m ≤ n) :
    v.IsNumbered program n := by
  cases numbered with
  | plain none => exact .plain none
  | procedure own below => exact .procedure own (Nat.lt_of_lt_of_le below le)
  | classRef own => exact .classRef own

theorem Instruction.IsNumbered.mono {i : Instruction} (numbered : i.IsNumbered program m) (le : m ≤ n) :
    i.IsNumbered program n := by
  cases i with
  | value v => exact Value.IsNumbered.mono numbered le
  | _ => trivial

/-- Code whose constants refer to a program and to its first `n` procedures. -/
def Numbered (program : ProgramId) (n : Nat) (is : List Instruction) : Prop :=
  ∀ i ∈ is, i.IsNumbered program n

theorem Numbered.mono {is : List Instruction} (numbered : Numbered program m is) (le : m ≤ n) :
    Numbered program n is := fun i member => (numbered i member).mono le

@[simp] theorem numbered_nil : Numbered program n [] := List.forall_mem_nil _

@[simp] theorem numbered_cons {i : Instruction} {is : List Instruction} :
    Numbered program n (i :: is) ↔ i.IsNumbered program n ∧ Numbered program n is := List.forall_mem_cons

@[simp] theorem numbered_append {is js : List Instruction} :
    Numbered program n (is ++ js) ↔ Numbered program n is ∧ Numbered program n js := List.forall_mem_append

@[simp] theorem Value.isNumbered_string (t : String) : (Value.string t).IsNumbered program n := .plain rfl

@[simp] theorem Value.isNumbered_number (x : Float) : (Value.number x).IsNumbered program n := .plain rfl

@[simp] theorem Value.isNumbered_bool (b : Bool) : (Value.bool b).IsNumbered program n := .plain rfl

@[simp] theorem Value.isNumbered_null : Value.null.IsNumbered program n := .plain rfl

theorem Literal.toValue_isNumbered (l : Literal) : l.toValue.IsNumbered program n := by
  cases l <;> exact .plain rfl

@[simp] theorem LoweringOptions.emitMark_isNumbered (o : LoweringOptions) (ν : Numbering) (lines : Lines) :
    Numbered program n (o.emitMark ν lines) := by
  unfold LoweringOptions.emitMark
  split <;> simp [Instruction.IsNumbered]

mutual

theorem Expr.emit_isNumbered (e : Expr) : Numbered program n e.emit := by
  cases e with
  | literal value => simpa [Expr.emit, Instruction.IsNumbered] using value.toValue_isNumbered
  | «variable» => simp [Expr.emit, Instruction.IsNumbered]
  | member receiver => simp [Expr.emit, Instruction.IsNumbered, receiver.emit_isNumbered]
  | index receiver key => simp [Expr.emit, Instruction.IsNumbered, receiver.emit_isNumbered, key.emit_isNumbered]
  | call name keywords args => simp [Expr.emit, Instruction.IsNumbered, emitAll_isNumbered args]
  | send receiver name keywords args =>
    simp [Expr.emit, Instruction.IsNumbered, receiver.emit_isNumbered, emitAll_isNumbered args]
  | unary op operand => simp [Expr.emit, Instruction.IsNumbered, operand.emit_isNumbered]
  | binary op left right | pair left right =>
    simp [Expr.emit, Instruction.IsNumbered, left.emit_isNumbered, right.emit_isNumbered]
  | both left right | either left right =>
    simp [Expr.emit, Fragment.shortCircuit, Instruction.IsNumbered, left.emit_isNumbered, right.emit_isNumbered]
  | list items | map items => simp [Expr.emit, Instruction.IsNumbered, emitAll_isNumbered items]
  | group inner => exact inner.emit_isNumbered

theorem emitAll_isNumbered (es : List Expr) : Numbered program n (emitAll es) := by
  cases es with
  | nil => simp [emitAll]
  | cons e rest => simp [emitAll, e.emit_isNumbered, emitAll_isNumbered rest]

end

theorem Target.emit_isNumbered (t : Target) {value : List Instruction} (place : Position)
    (values : Numbered program n value) : Numbered program n (t.emit value place) := by
  cases t with
  | «variable» => simp [Target.emit, Fragment.assign, Instruction.IsNumbered, values]
  | member receiver => simp [Target.emit, Instruction.IsNumbered, receiver.emit_isNumbered, values]
  | index receiver key =>
    simp [Target.emit, Instruction.IsNumbered, receiver.emit_isNumbered, key.emit_isNumbered, values]

theorem Fragment.conditional_isNumbered {condition body : List Instruction} {rest : Option (List Instruction)}
    (conditions : Numbered program n condition) (bodies : Numbered program n body)
    (rests : ∀ is, rest = some is → Numbered program n is) :
    Numbered program n (conditional condition body rest) := by
  cases rest with
  | none => simp [conditional, skipIf, Instruction.IsNumbered, conditions, bodies]
  | some rest => simp [conditional, choose, Instruction.IsNumbered, conditions, bodies, rests]

/-- A definition whose code refers to the first `n` procedures. -/
def Definition.IsNumbered (o : LoweringOptions) (n : Nat) (d : Definition) : Prop :=
  Numbered o.program n (emitPieces o d.body)

/-- Code and definitions that refer to the first `n` procedures. -/
structure Numbers (o : LoweringOptions) (n : Nat) (is : List Instruction) (ds : List Definition) : Prop where
  code : Numbered o.program n is
  definitions : ∀ d ∈ ds, d.IsNumbered o n

variable {o : LoweringOptions}

theorem Definition.isNumbered_mono {ds : List Definition} (numbered : ∀ d ∈ ds, d.IsNumbered o m) (le : m ≤ n) :
    ∀ d ∈ ds, d.IsNumbered o n := fun d member => Numbered.mono (numbered d member) le

theorem Numbers.mono {is : List Instruction} {ds : List Definition} (numbers : Numbers o m is ds) (le : m ≤ n) :
    Numbers o n is ds := ⟨numbers.code.mono le, Definition.isNumbered_mono numbers.definitions le⟩

theorem Definition.isNumbered_block {name : String} {params : List ParamTree} {owner : Option ClassId}
    {line : Nat} {ν : Numbering} {body : List Stmt} (numbered : Numbered o.program n (emitBlock o ν body)) :
    (⟨name, params, owner, line, [.block ν body]⟩ : Definition).IsNumbered o n := by
  simpa [IsNumbered, emitPieces, Piece.emit] using numbered

mutual

/-- A statement refers to procedures that are numbered once it is compiled. -/
theorem Stmt.numbers (ν : Numbering) (s : Stmt) :
    Numbers o (s.after ν).procedures (s.emit o ν) (s.definitions ν) := by
  cases s with
  | eval lines value =>
    exact ⟨by simp [Stmt.emit, Instruction.IsNumbered, value.emit_isNumbered], by simp [Stmt.definitions]⟩
  | assign lines target value place =>
    refine ⟨?_, by simp [Stmt.definitions]⟩
    simp [Stmt.emit, target.emit_isNumbered place value.emit_isNumbered]
  | ret lines value =>
    refine ⟨?_, by simp [Stmt.definitions]⟩
    cases value with
    | none => simp [Stmt.emit, Instruction.IsNumbered]
    | some value => simp [Stmt.emit, Instruction.IsNumbered, value.emit_isNumbered]
  | branch line condition body otherwise =>
    have bodies := (blockNumbers ν.mark body).mono (otherwise.procedures_le _)
    have rests := otherwise.numbers (blockAfter ν.mark body)
    refine ⟨?_, List.forall_mem_append.mpr ⟨bodies.definitions, rests.2⟩⟩
    exact numbered_append.mpr
      ⟨by simp, Fragment.conditional_isNumbered condition.emit_isNumbered bodies.code rests.1⟩
  | whileLoop line condition body =>
    have bodies := blockNumbers ν.mark body
    refine ⟨?_, bodies.definitions⟩
    simpa [Stmt.emit, Stmt.after, Fragment.whileLoop, Instruction.IsNumbered, condition.emit_isNumbered]
      using bodies.code
  | forLoop place name namePlace items body =>
    have bodies := blockNumbers ν.mark.loop body
    refine ⟨?_, bodies.definitions⟩
    simpa [Stmt.emit, Stmt.after, Fragment.forLoop, Fragment.assign, Fragment.skipIf, Fragment.whileLoop,
      Instruction.IsNumbered, items.emit_isNumbered] using bodies.code
  | guarded line body binding handler =>
    have bodies := (blockNumbers ν.mark body).mono (blockAfter_procedures_le _ handler)
    have handlers := blockNumbers (blockAfter ν.mark body) handler
    refine ⟨?_, List.forall_mem_append.mpr ⟨bodies.definitions, handlers.definitions⟩⟩
    simpa [Stmt.emit, Fragment.guarded, Instruction.IsNumbered] using ⟨bodies.code, handlers.code⟩
  | define place name params body =>
    have bodies := (blockNumbers ν.mark body).mono (Nat.le_succ _)
    refine ⟨?_, List.forall_mem_append.mpr ⟨bodies.definitions, ?_⟩⟩
    · have own : (Value.procedure ⟨o.program, (blockAfter ν.mark body).procedures⟩).IsNumbered o.program
          ((blockAfter ν.mark body).procedures + 1) := .procedure rfl (Nat.lt_succ_self _)
      simpa [Stmt.emit, Stmt.after, Numbering.procedure, Fragment.assign, Instruction.IsNumbered] using own
    · exact List.forall_mem_singleton.mpr (Definition.isNumbered_block bodies.code)

theorem blockNumbers (ν : Numbering) (body : List Stmt) :
    Numbers o (blockAfter ν body).procedures (emitBlock o ν body) (blockDefinitions ν body) := by
  cases body with
  | nil => exact ⟨numbered_nil, List.forall_mem_nil _⟩
  | cons s rest =>
    have first := (s.numbers ν).mono (blockAfter_procedures_le _ rest)
    have others := blockNumbers (s.after ν) rest
    exact ⟨numbered_append.mpr ⟨first.code, others.code⟩,
      List.forall_mem_append.mpr ⟨first.definitions, others.definitions⟩⟩

theorem Otherwise.numbers (ν : Numbering) (otherwise : Otherwise) :
    (∀ is, otherwise.emit o ν = some is → Numbered o.program (otherwise.after ν).procedures is) ∧
      ∀ d ∈ otherwise.definitions ν, d.IsNumbered o (otherwise.after ν).procedures := by
  cases otherwise with
  | nothing => exact ⟨nofun, List.forall_mem_nil _⟩
  | block body =>
    have bodies := blockNumbers ν body
    refine ⟨?_, bodies.definitions⟩
    rintro is ⟨⟩
    exact bodies.code
  | branch condition body otherwise =>
    have bodies := (blockNumbers ν body).mono (otherwise.procedures_le _)
    have rests := otherwise.numbers (blockAfter ν body)
    refine ⟨?_, List.forall_mem_append.mpr ⟨bodies.definitions, rests.2⟩⟩
    rintro is ⟨⟩
    exact Fragment.conditional_isNumbered condition.emit_isNumbered bodies.code rests.1

end

theorem FunctionTree.definitions_isNumbered (f : FunctionTree) (name : String) (owner : Option ClassId)
    (ν : Numbering) : ∀ d ∈ f.definitions name owner ν, d.IsNumbered o (f.after ν).procedures := by
  have bodies := (blockNumbers (o := o) ν f.body).mono (Nat.le_succ _)
  refine List.forall_mem_append.mpr ⟨bodies.definitions, ?_⟩
  exact List.forall_mem_singleton.mpr (Definition.isNumbered_block bodies.code)

theorem FunctionTree.id_isNumbered (f : FunctionTree) (program : ProgramId) (ν : Numbering) :
    (Value.procedure (f.id program ν)).IsNumbered program (f.after ν).procedures :=
  .procedure rfl (Nat.lt_succ_self _)

/-- A class whose methods and statics refer to the first `n` procedures. -/
structure ClassDef.IsNumbered (program : ProgramId) (n : Nat) (c : ClassDef) : Prop where
  statics : ∀ entry ∈ c.statics.entries, entry.2.IsNumbered program n
  methods : ∀ entry ∈ c.methods.entries, (Value.procedure entry.2).IsNumbered program n

/-- The members of a class so far refer to the procedures that are numbered. -/
structure MemberSummary.IsNumbered (o : LoweringOptions) (s : MemberSummary) : Prop where
  definitions : ∀ d ∈ s.definitions, d.IsNumbered o s.after.procedures
  fields : Numbered o.program s.after.procedures (emitPieces o s.fields)
  statics : ∀ entry ∈ s.statics.entries, entry.2.IsNumbered o.program s.after.procedures
  methods : ∀ entry ∈ s.methods.entries, (Value.procedure entry.2).IsNumbered o.program s.after.procedures

theorem MemberSummary.isNumbered_add {s : MemberSummary} (numbered : s.IsNumbered o) (className : String)
    {owner : ClassId} (owned : owner.program = o.program) (t : MemberTree) :
    (s.add className owner t).IsNumbered o := by
  have le : s.after.procedures ≤ (s.add className owner t).after.procedures := t.procedures_le s.after
  have definitions := Definition.isNumbered_mono numbered.definitions le
  have statics : ∀ entry ∈ s.statics.entries, entry.2.IsNumbered o.program _ :=
    fun entry member => (numbered.statics entry member).mono le
  have methods : ∀ entry ∈ s.methods.entries, (Value.procedure entry.2).IsNumbered o.program _ :=
    fun entry member => (numbered.methods entry member).mono le
  have fields := numbered.fields.mono le
  cases t with
  | method f =>
    have own := f.id_isNumbered owner.program s.after
    rw [owned] at own
    refine ⟨List.forall_mem_append.mpr ⟨definitions, f.definitions_isNumbered _ _ _⟩, ?_, statics, ?_⟩
    · simpa [MemberSummary.add, MemberTree.fields] using fields
    · exact Table.forall_put (P := fun id => (Value.procedure id).IsNumbered o.program _) methods (owned ▸ own)
  | staticMethod f =>
    have own := f.id_isNumbered owner.program s.after
    rw [owned] at own
    refine ⟨List.forall_mem_append.mpr ⟨definitions, f.definitions_isNumbered _ _ _⟩, ?_, ?_, methods⟩
    · simpa [MemberSummary.add, MemberTree.fields] using fields
    · exact Table.forall_put statics (owned ▸ own)
  | staticField lines field place value =>
    refine ⟨by simpa [MemberSummary.add, MemberTree.definitions] using definitions, ?_, statics, methods⟩
    have classRef : (Value.classRef owner).IsNumbered o.program s.after.mark.procedures := .classRef owned
    simpa [MemberSummary.add, MemberTree.fields, MemberTree.after, emitPieces, Piece.emit, Instruction.IsNumbered,
      value.emit_isNumbered, classRef] using fields

theorem ClassTree.summary_isNumbered (c : ClassTree) (ν : Numbering) : (c.summary o.program ν).IsNumbered o := by
  have fold (members : List MemberTree) (s : MemberSummary) (numbered : s.IsNumbered o) :
      (members.foldl (MemberSummary.add c.name (id o.program ν)) s).IsNumbered o := by
    induction members generalizing s with
    | nil => exact numbered
    | cons t rest ih => exact ih _ (MemberSummary.isNumbered_add numbered _ rfl t)
  exact fold c.members _ ⟨List.forall_mem_nil _, numbered_nil, List.forall_mem_nil _, List.forall_mem_nil _⟩

theorem ClassTree.definitions_isNumbered (c : ClassTree) (ν : Numbering) :
    ∀ d ∈ c.definitions o.program ν, d.IsNumbered o (c.after o.program ν).procedures := by
  have le : (c.summary o.program ν).after.procedures ≤ (c.after o.program ν).procedures := Nat.le_add_right ..
  have numbered := c.summary_isNumbered (o := o) ν
  refine List.forall_mem_append.mpr ⟨Definition.isNumbered_mono numbered.definitions le, fun d member => ?_⟩
  unfold ClassTree.setup at member
  split at member
  · cases member
  · rw [List.mem_singleton.mp member]
    exact numbered.fields.mono le

theorem ClassTree.classDef_isNumbered (c : ClassTree) (program : ProgramId) (ν : Numbering) :
    (c.classDef program ν).IsNumbered program (c.after program ν).procedures := by
  have le : (c.summary program ν).after.procedures ≤ (c.after program ν).procedures := Nat.le_add_right ..
  have numbered := c.summary_isNumbered (o := ⟨program, false⟩) ν
  exact ⟨fun entry member => (numbered.statics entry member).mono le,
    fun entry member => (numbered.methods entry member).mono le⟩

theorem ClassTree.setupIds_isNumbered (c : ClassTree) (program : ProgramId) (ν : Numbering) :
    ∀ id ∈ c.setupIds program ν, (Value.procedure id).IsNumbered program (c.after program ν).procedures := by
  intro id member
  obtain ⟨d, among, rfl⟩ := List.mem_map.mp member
  exact .procedure rfl (Nat.lt_add_of_pos_right (List.length_pos_of_mem among))

/-- The items of a module so far refer to the procedures that are numbered. -/
structure ItemSummary.IsNumbered (o : LoweringOptions) (s : ItemSummary) : Prop where
  definitions : ∀ d ∈ s.definitions, d.IsNumbered o s.after.procedures
  classes : ∀ c ∈ s.classes, c.IsNumbered o.program s.after.procedures
  members : ∀ entry ∈ s.members.entries, entry.2.IsNumbered o.program s.after.procedures
  setups : ∀ id ∈ s.setups, (Value.procedure id).IsNumbered o.program s.after.procedures
  body : Numbered o.program s.after.procedures (emitPieces o s.body)

theorem ClassDef.IsNumbered.mono {c : ClassDef} (numbered : c.IsNumbered program m) (le : m ≤ n) :
    c.IsNumbered program n :=
  ⟨fun entry member => (numbered.statics entry member).mono le,
    fun entry member => (numbered.methods entry member).mono le⟩

theorem Item.procedures_le (program : ProgramId) (s : ItemSummary) (item : Item) :
    s.after.procedures ≤ (s.add program item).after.procedures := by
  obtain ⟨_, _, yields, _⟩ := Assembler.lowerItem_yields (o := ⟨program, false⟩) s item
  exact yields.count.1 ▸ Nat.le_add_right ..

theorem ItemSummary.isNumbered_add {s : ItemSummary} (numbered : s.IsNumbered o) (item : Item) :
    (s.add o.program item).IsNumbered o := by
  have le := item.procedures_le o.program s
  have definitions := Definition.isNumbered_mono numbered.definitions le
  have classes : ∀ c ∈ s.classes, c.IsNumbered o.program _ := fun c member => (numbered.classes c member).mono le
  have members : ∀ entry ∈ s.members.entries, entry.2.IsNumbered o.program _ :=
    fun entry member => (numbered.members entry member).mono le
  have setups : ∀ id ∈ s.setups, (Value.procedure id).IsNumbered o.program _ :=
    fun id member => (numbered.setups id member).mono le
  have body := numbered.body.mono le
  cases item with
  | function f =>
    exact ⟨List.forall_mem_append.mpr ⟨definitions, f.definitions_isNumbered _ _ _⟩, classes,
      Table.forall_put members (f.id_isNumbered _ _), setups, body⟩
  | classDef c =>
    exact ⟨List.forall_mem_append.mpr ⟨definitions, c.definitions_isNumbered _⟩,
      List.forall_mem_append.mpr ⟨classes, List.forall_mem_singleton.mpr (c.classDef_isNumbered _ _)⟩,
      Table.forall_put members (.classRef rfl),
      List.forall_mem_append.mpr ⟨setups, c.setupIds_isNumbered _ _⟩, body⟩
  | statement t =>
    have numbers := t.numbers (o := o) s.after
    refine ⟨List.forall_mem_append.mpr ⟨definitions, numbers.definitions⟩, classes, members, setups, ?_⟩
    have both := numbered_append.mpr ⟨body, numbers.code⟩
    simpa [ItemSummary.add, emitPieces, Piece.emit, emitBlock] using both

namespace ModuleTree

variable (t : ModuleTree)

theorem summary_isNumbered : (t.summary o.program).IsNumbered o := by
  have fold (items : List Item) (s : ItemSummary) (numbered : s.IsNumbered o) :
      (items.foldl (ItemSummary.add o.program) s).IsNumbered o := by
    induction items generalizing s with
    | nil => exact numbered
    | cons item rest ih => exact ih _ (ItemSummary.isNumbered_add numbered item)
  exact fold t.items _ ⟨List.forall_mem_nil _, List.forall_mem_nil _, List.forall_mem_nil _, List.forall_mem_nil _,
    numbered_nil⟩

theorem summary_count (program : ProgramId) :
    (t.summary program).definitions.length = (t.summary program).after.procedures := by
  obtain ⟨ds, cs, yields, definitions, _⟩ :=
    Assembler.lowerItems_yields (o := ⟨program, false⟩) t.items ⟨.start, [], [], .empty, [], []⟩
  change (t.summary program).definitions = [] ++ ds at definitions
  have count : (t.summary program).after.procedures = 0 + ds.length := yields.count.1
  rw [definitions, count, List.nil_append, Nat.zero_add]

/-- The last procedure is the top-level code. -/
theorem length_definitions (program : ProgramId) :
    (t.definitions program).length = (t.summary program).after.procedures + 1 := by
  rw [ModuleTree.definitions, List.length_append, t.summary_count]
  rfl

theorem definitions_isNumbered : ∀ d ∈ t.definitions o.program, d.IsNumbered o (t.definitions o.program).length := by
  have le : (t.summary o.program).after.procedures ≤ (t.definitions o.program).length :=
    t.length_definitions o.program ▸ Nat.le_succ _
  have numbered := t.summary_isNumbered (o := o)
  refine List.forall_mem_append.mpr ⟨Definition.isNumbered_mono numbered.definitions le, ?_⟩
  exact List.forall_mem_singleton.mpr (numbered.body.mono le)

end ModuleTree

/-- Each class of the items so far is a member, under a name that no clause to come takes. -/
def ItemSummary.NamesClasses (program : ProgramId) (s : ItemSummary) (cs : List Clause) : Prop :=
  ∀ k < s.classes.length, ∃ name, s.members.get? name = some (.classRef ⟨program, k⟩) ∧
    ∀ c ∈ cs, ¬(Clause.declares name true).Clashes c

theorem ItemSummary.namesClasses_add {s : ItemSummary} {item : Item} {cs : List Clause}
    (names : s.NamesClasses program (item.declarations ++ cs)) (count : s.after.classes = s.classes.length)
    (apart : ∀ c ∈ item.declarations, ∀ d ∈ cs, ¬c.Clashes d) : (s.add program item).NamesClasses program cs := by
  cases item with
  | function f =>
    intro k below
    obtain ⟨name, found, free⟩ := names k below
    obtain ⟨here, others⟩ := List.forall_mem_append.mp free
    have other : name ≠ f.name := fun same => List.forall_mem_singleton.mp here ⟨same, .inl rfl⟩
    refine ⟨name, ?_, others⟩
    change (s.members.set f.name _).get? name = _
    rw [Table.get?_set, if_neg other, found]
  | classDef c =>
    intro k below
    rw [show (s.add program (.classDef c)).classes.length = s.classes.length + 1 from List.length_append] at below
    rcases Nat.lt_succ_iff_lt_or_eq.mp below with old | new
    · obtain ⟨name, found, free⟩ := names k old
      obtain ⟨here, others⟩ := List.forall_mem_append.mp free
      have other : name ≠ c.name := fun same => List.forall_mem_singleton.mp here ⟨same, .inl rfl⟩
      refine ⟨name, ?_, others⟩
      change (s.members.set c.name _).get? name = _
      rw [Table.get?_set, if_neg other, found]
    · refine ⟨c.name, ?_, List.forall_mem_singleton.mp apart⟩
      change (s.members.set c.name (.classRef ⟨program, s.after.classes⟩)).get? c.name = _
      rw [Table.get?_set, if_pos rfl, count, new]
  | statement t => exact names

theorem ItemSummary.namesClasses_foldl {s : ItemSummary} {items : List Item}
    (names : s.NamesClasses program (items.flatMap Item.declarations)) (count : s.after.classes = s.classes.length)
    (apart : (items.flatMap Item.declarations).Pairwise fun c d => ¬c.Clashes d) :
    (items.foldl (ItemSummary.add program) s).NamesClasses program [] := by
  induction items generalizing s with
  | nil => exact names
  | cons item rest ih =>
    obtain ⟨_, others, between⟩ := List.pairwise_append.mp apart
    refine ih (ItemSummary.namesClasses_add names count between) ?_ others
    obtain ⟨_, _, yields, _, classes⟩ := Assembler.lowerItem_yields (o := ⟨program, false⟩) s item
    change (s.add program item).classes = _ at classes
    rw [classes, List.length_append, ← count]
    exact yields.count.2

/-- Every class of a module is one of its members. -/
theorem ModuleTree.classes_named {t : ModuleTree} (apart : t.declarations.Pairwise fun c d => ¬c.Clashes d)
    {k : Nat} (below : k < (t.summary program).classes.length) :
    ∃ name, (t.summary program).members.get? name = some (.classRef ⟨program, k⟩) := by
  have names : (t.summary program).NamesClasses program [] :=
    ItemSummary.namesClasses_foldl (fun _ none => absurd none (Nat.not_lt_zero _)) rfl apart
  obtain ⟨name, found, _⟩ := names k below
  exact ⟨name, found⟩

/-- A program that refers only to procedures that it has, and each of whose classes is one of its members. -/
structure Program.IsNumbered (program : ProgramId) (p : Program) : Prop where
  code : ∀ q ∈ p.procedures, Numbered program p.procedures.size q.code.toList
  defaults : ∀ q ∈ p.procedures, ∀ param ∈ q.params, ∀ v, param.default = some v → v.holders = []
  classes : ∀ c ∈ p.classes, c.IsNumbered program p.procedures.size
  members : ∀ entry ∈ p.members.entries, entry.2.IsNumbered program p.procedures.size
  owners : ∀ q ∈ p.procedures, ∀ c, q.owner = some c → c.program = program
  startup : ∀ id ∈ p.topLevel.toList ++ p.classSetups, (Value.procedure id).IsNumbered program p.procedures.size
  topLevel : ∃ id, p.topLevel = some id ∧ (p.procedures[id.index]?.map Procedure.name) = some moduleProcedure
  named : ∀ k < p.classes.size, ∃ name, p.members.get? name = some (.classRef ⟨program, k⟩)
  modules : p.modules = []
  alive : p.released = false

/-- Whatever is compiled refers only to procedures that it has. -/
theorem Program.ofSource_isNumbered {source file : String} {t : ModuleTree}
    (parsed : ModuleTree.ofSource source = .ok t) : (Program.ofSource source file o).IsNumbered o.program := by
  obtain ⟨parts, same, lowered⟩ := Program.ofSource_eq file o parsed
  have size : parts.procedures.size = (t.definitions o.program).length := by
    rw [← Array.length_toList, lowered.procedures, List.length_map]
  have le : (t.summary o.program).after.procedures ≤ parts.procedures.size :=
    size ▸ t.length_definitions o.program ▸ Nat.le_succ _
  have numbered := t.summary_isNumbered (o := o)
  have defined (q : Procedure) (member : q ∈ parts.procedures) :
      ∃ d ∈ t.definitions o.program, d.procedure o = q := lowered.mem_procedures_iff.mp member
  rw [same]
  refine ⟨fun q member => ?_, fun q member => ?_, fun c member => ?_, fun entry member => ?_, fun q member => ?_,
    fun id member => ?_, ⟨_, lowered.topLevel, ?_⟩, fun k below => ?_, rfl, rfl⟩
  · obtain ⟨d, among, rfl⟩ := defined q member
    exact size ▸ t.definitions_isNumbered d among
  · obtain ⟨d, _, rfl⟩ := defined q member
    intro param declared v default
    obtain ⟨p, _, rfl⟩ := List.mem_map.mp declared
    obtain ⟨l, _, rfl⟩ := Option.map_eq_some_iff.mp default
    cases l <;> rfl
  · refine (numbered.classes c ?_).mono le
    rw [← lowered.classes]
    exact Array.mem_toList_iff.mpr member
  · rw [show (Program.ofParts file (.of source) parts).members = _ from lowered.members] at member
    exact (numbered.members entry member).mono le
  · obtain ⟨d, among, rfl⟩ := defined q member
    exact (t.definitions_within o.program d among).owner
  · rcases List.mem_append.mp member with top | setup
    · rw [show (Program.ofParts file (.of source) parts).topLevel = _ from lowered.topLevel] at top
      rw [List.mem_singleton.mp top]
      exact .procedure rfl (size ▸ t.length_definitions o.program ▸ Nat.lt_succ_self _)
    · rw [show (Program.ofParts file (.of source) parts).classSetups = _ from lowered.classSetups] at setup
      exact (numbered.setups id setup).mono le
  · change parts.procedures[(t.summary o.program).after.procedures]?.map _ = _
    rw [← Array.getElem?_toList, lowered.procedures, ← t.summary_count, ModuleTree.definitions, List.map_append,
      List.getElem?_append_right (by simp)]
    simp [Definition.procedure]
  · rw [show (Program.ofParts file (.of source) parts).members = _ from lowered.members]
    refine ModuleTree.classes_named (ModuleTree.ofSource_declarations parsed) ?_
    rw [← lowered.classes, Array.length_toList]
    exact below

end ScriptEngine
