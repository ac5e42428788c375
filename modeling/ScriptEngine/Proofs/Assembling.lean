import ScriptEngine.Proofs.Definitions

/-! # Compiling is reading the tree

The steps of compiling change an assembly only by numbering and by adding procedures and classes.
`Assembler.Yields` says so for one step, with all that it adds; the steps compose, and a module yields
exactly the procedures of its definitions.
-/

namespace ScriptEngine

/-- An assembly in which so much has been numbered. Markers count only if they are wanted. -/
structure Assembly.At (s : Assembly) (o : LoweringOptions) (ν : Numbering) : Prop where
  loops : s.loops = ν.loops
  procedures : s.procedures.size = ν.procedures
  classes : s.classes.size = ν.classes
  markers : o.breakpoints = true → s.markers.size = ν.markers

namespace Assembler

variable {α β : Type} {o : LoweringOptions} {ν μ ξ : Numbering}

/-- A step of compiling that never fails: from `ν` it yields `a` at `μ` and adds procedures and classes. -/
def Yields (o : LoweringOptions) (ν : Numbering) (x : Assembler α) (a : α) (ds : List Definition)
    (cs : List ClassDef) (μ : Numbering) : Prop :=
  ∀ s : Assembly, s.At o ν → ∃ s' : Assembly, x s = .ok (a, s') ∧ s'.At o μ ∧
    s'.procedures.toList = s.procedures.toList ++ ds.map (·.procedure o) ∧
    s'.classes.toList = s.classes.toList ++ cs

theorem Yields.pure (a : α) : Yields o ν (pure a) a [] [] ν :=
  fun s at_ν => ⟨s, rfl, at_ν, by simp, by simp⟩

theorem Yields.bind {x : Assembler α} {f : α → Assembler β} {a : α} {b : β}
    {ds es : List Definition} {cs bs : List ClassDef} (first : Yields o ν x a ds cs μ)
    (second : Yields o μ (f a) b es bs ξ) : Yields o ν (x >>= f) b (ds ++ es) (cs ++ bs) ξ := by
  intro s at_ν
  obtain ⟨s', run, at_μ, procedures, classes⟩ := first s at_ν
  obtain ⟨s'', rerun, at_ξ, procedures', classes'⟩ := second s' at_μ
  refine ⟨s'', ?_, at_ξ, ?_, ?_⟩
  · change (x s >>= fun p => f p.1 p.2) = _
    rw [run]
    exact rerun
  · rw [procedures', procedures, List.map_append, List.append_assoc]
  · rw [classes', classes, List.append_assoc]

/-- The bind of a step that only yields. -/
theorem Yields.then_pure {x : Assembler α} {a : α} {b : β} {f : α → β} {ds : List Definition}
    {cs : List ClassDef} (first : Yields o ν x a ds cs μ) (same : f a = b) :
    Yields o ν (x >>= fun r => Pure.pure (f r)) b ds cs μ := by
  subst same
  have both := first.bind (f := fun r => Pure.pure (f r)) (Yields.pure (f a))
  simpa only [List.append_nil] using both

theorem Yields.of_eq {x : Assembler α} {a b : α} {ds es : List Definition} {cs bs : List ClassDef}
    (h : Yields o ν x a ds cs μ) (values : a = b) (definitions : ds = es) (classes : cs = bs) :
    Yields o ν x b es bs μ := by
  subst values definitions classes
  exact h

theorem mark_yields (lines : Lines) :
    Yields o ν (mark o lines) (Code.ofList (o.emitMark ν lines)) [] [] ν.mark := by
  intro s at_ν
  cases wanted : o.breakpoints with
  | true =>
    refine ⟨{ s with markers := s.markers.push (.ofLines lines) }, ?_, ?_, by simp, by simp⟩
    · have here := at_ν.markers wanted
      simp only [mark, wanted, if_true, LoweringOptions.emitMark, ← here]
      rfl
    · exact ⟨at_ν.loops, at_ν.procedures, at_ν.classes,
        fun _ => by simp [Numbering.mark, at_ν.markers wanted]⟩
  | false =>
    refine ⟨s, ?_, ?_, by simp, by simp⟩
    · simp only [mark, wanted, LoweringOptions.emitMark]
      rfl
    · exact ⟨at_ν.loops, at_ν.procedures, at_ν.classes, fun h => by simp [wanted] at h⟩

theorem nextLoop_yields : Yields o ν nextLoop ν.loops [] [] ν.loop := by
  intro s at_ν
  refine ⟨{ s with loops := s.loops + 1 }, ?_, ?_, by simp, by simp⟩
  · rw [← at_ν.loops]
    rfl
  · exact ⟨by simp [Numbering.loop, at_ν.loops], at_ν.procedures, at_ν.classes, at_ν.markers⟩

theorem finish_yields (is : List Instruction) (place : Position) :
    Yields o ν (finish (Code.ofList is) place) is.toArray [] [] ν := by
  unfold finish
  rw [Code.finish_ofList]
  exact .pure _

theorem addProcedure_yields (o : LoweringOptions) (ν : Numbering) (d : Definition) :
    Yields o ν (addProcedure o (d.procedure o)) ⟨o.program, ν.procedures⟩ [d] [] ν.procedure := by
  intro s at_ν
  refine ⟨{ s with procedures := s.procedures.push (d.procedure o) }, ?_, ?_, by simp, by simp⟩
  · rw [← at_ν.procedures]
    rfl
  · exact ⟨at_ν.loops, by simp [Numbering.procedure, at_ν.procedures], at_ν.classes, at_ν.markers⟩

theorem addFunction_yields (name : String) (params : List ParamTree) (owner : Option ClassId)
    (body : List Stmt) (place : Position) (μ : Numbering) :
    Yields o ν (addFunction o name params owner (Code.ofList (emitBlock o μ body)) place)
      ⟨o.program, ν.procedures⟩ [⟨name, params, owner, place.line, [.block μ body]⟩] []
      ν.procedure := by
  have added := addProcedure_yields o ν ⟨name, params, owner, place.line, [.block μ body]⟩
  simp only [Definition.procedure, emitPieces, List.flatMap_cons, List.flatMap_nil, List.append_nil,
    Piece.emit] at added
  exact ((finish_yields _ _).bind added).of_eq rfl rfl rfl

mutual

theorem lowerStmt_yields (ν : Numbering) (s : Stmt) :
    Yields o ν (lowerStmt o s) (Code.ofList (s.emit o ν)) (s.definitions ν) [] (s.after ν) := by
  cases s with
  | eval lines value =>
    refine (mark_yields lines).then_pure ?_
    simp [value.lower_eq, Code.discard_eq, Stmt.emit]
  | assign lines target value place =>
    refine (mark_yields lines).then_pure ?_
    simp [value.lower_eq, target.lower_eq, Stmt.emit]
  | ret lines value =>
    refine (mark_yields lines).then_pure ?_
    cases value with
    | none => simp [Code.value_eq, Code.push_eq, Stmt.emit]
    | some value => simp [value.lower_eq, Code.push_eq, Stmt.emit]
  | branch line condition body otherwise =>
    refine ((mark_yields ⟨line, line⟩).bind ((lowerBlock_yields _ body).bind
      ((lowerOtherwise_yields _ otherwise).then_pure ?_))).of_eq rfl rfl rfl
    rw [condition.lower_eq, Code.conditional_ofList, Code.ofList_append, Stmt.emit]
  | whileLoop line condition body =>
    refine ((mark_yields ⟨line, line⟩).bind ((lowerBlock_yields _ body).then_pure ?_)).of_eq rfl rfl rfl
    rw [condition.lower_eq, Code.whileLoop_ofList, Code.ofList_append, Stmt.emit]
  | forLoop place name namePlace items body =>
    refine ((mark_yields ⟨place.line, place.line⟩).bind (nextLoop_yields.bind
      ((lowerBlock_yields _ body).then_pure ?_))).of_eq rfl rfl rfl
    rw [items.lower_eq, Code.forLoop_ofList, Code.ofList_append, Stmt.emit]
    rfl
  | guarded line body binding handler =>
    refine ((mark_yields ⟨line, line⟩).bind ((lowerBlock_yields _ body).bind
      ((lowerBlock_yields _ handler).then_pure ?_))).of_eq rfl rfl rfl
    rw [Code.guarded_ofList, Code.ofList_append, Stmt.emit]
  | define place name params body =>
    refine ((mark_yields ⟨place.line, place.line⟩).bind ((lowerBlock_yields _ body).bind
      ((addFunction_yields name params none body place ν.mark).then_pure ?_))).of_eq rfl rfl rfl
    rw [Code.value_eq, Code.assign_ofList, Code.ofList_append, Stmt.emit]

theorem lowerBlock_yields (ν : Numbering) (body : List Stmt) :
    Yields o ν (lowerBlock o body) (Code.ofList (emitBlock o ν body)) (blockDefinitions ν body) []
      (blockAfter ν body) := by
  cases body with
  | nil => exact .pure _
  | cons s rest =>
    refine ((lowerStmt_yields _ s).bind ((lowerBlock_yields _ rest).then_pure ?_)).of_eq rfl rfl rfl
    rw [Code.ofList_append, emitBlock]

theorem lowerOtherwise_yields (ν : Numbering) (otherwise : Otherwise) :
    Yields o ν (lowerOtherwise o otherwise) ((otherwise.emit o ν).map Code.ofList)
      (otherwise.definitions ν) [] (otherwise.after ν) := by
  cases otherwise with
  | nothing => exact .pure _
  | block body =>
    refine (lowerBlock_yields _ body).then_pure ?_
    rw [Otherwise.emit, Option.map_some]
  | branch condition body otherwise =>
    refine ((lowerBlock_yields _ body).bind
      ((lowerOtherwise_yields _ otherwise).then_pure ?_)).of_eq rfl rfl rfl
    rw [condition.lower_eq, Code.conditional_ofList, Otherwise.emit, Option.map_some]

end

theorem lowerFunction_yields (ν : Numbering) (f : FunctionTree) (name : String)
    (owner : Option ClassId) :
    Yields o ν (lowerFunction o f name owner) (f.id o.program ν) (f.definitions name owner ν) []
      (f.after ν) :=
  ((lowerBlock_yields ν f.body).bind (addFunction_yields name f.params owner f.body f.place ν)).of_eq
    rfl rfl rfl

/-- Puts a class into the slots of a buffer that wait for it. -/
def fillAll (owner : ClassId) (slots : List Nat) (code : Code) : Code :=
  slots.foldl (fun code slot => code.fill slot (.classRef owner)) code

theorem fillAll_cons (owner : ClassId) (slot : Nat) (slots : List Nat) (code : Code) :
    fillAll owner (slot :: slots) code = fillAll owner slots (code.fill slot (.classRef owner)) := rfl

/-- Code behind a buffer is not touched when the slots of the buffer are filled. -/
theorem fillAll_append (owner : ClassId) (slots : List Nat) (c d : Code)
    (inside : ∀ slot ∈ slots, slot < c.size) :
    fillAll owner slots (c ++ d) = fillAll owner slots c ++ d := by
  induction slots generalizing c with
  | nil => rfl
  | cons slot rest ih =>
    have here := Code.fill_append c d slot (.classRef owner) (inside slot List.mem_cons_self)
    rw [fillAll_cons, here, fillAll_cons]
    apply ih
    intro n member
    rw [Code.size_fill]
    exact inside n (List.mem_cons_of_mem _ member)

/-- The compiled members of a class are those of a summary, once the class itself is filled in. -/
structure Matches (o : LoweringOptions) (owner : ClassId) (parts : ClassParts) (s : MemberSummary) :
    Prop where
  statics : parts.statics = s.statics
  methods : parts.methods = s.methods
  inside : ∀ slot ∈ parts.slots, slot < parts.setup.size
  filled : fillAll owner parts.slots parts.setup = Code.ofList (emitPieces o s.fields)
  solid : ∀ piece ∈ s.fields, piece.emit o ≠ []

/-- A static field adds its code to the setup of a class and waits for the class in its first slot. -/
theorem field_matches {owner : ClassId} {parts : ClassParts} {s : MemberSummary}
    (same : Matches o owner parts s) (className : String) (lines : Lines) (field : String)
    (place : Position) (value : Expr) :
    let marked := parts.setup ++ Code.ofList (o.emitMark s.after lines)
    let code := marked ++ Code.opening .constant ++ Code.value (.string field) ++ value.lower ++
      Code.send "setMember" 2 place ++ Code.discard
    Matches o owner { parts with setup := code, slots := marked.size :: parts.slots }
      (s.add className owner (.staticField lines field place value)) := by
  intro marked code
  have bound : marked.size < code.size := by
    simp only [code, Code.size_append, Code.size_opening]
    omega
  refine ⟨same.statics, same.methods, ?_, ?_, ?_⟩
  · intro slot member
    rcases List.mem_cons.mp member with rfl | member
    · exact bound
    · have := same.inside slot member
      simp only [marked, Code.size_append] at bound
      change slot < code.size
      omega
  · rw [fillAll_cons]
    simp only [code, Code.append_assoc]
    rw [Code.fill_opening]
    simp only [marked, Code.append_assoc]
    rw [fillAll_append _ _ _ _ same.inside, same.filled]
    simp [MemberSummary.add, MemberTree.fields, emitPieces, Piece.emit, Code.value_eq, Code.send_eq,
      Code.discard_eq, value.lower_eq]
  · intro piece member
    rcases List.mem_append.mp member with member | member
    · exact same.solid piece member
    · rw [List.mem_singleton.mp member]
      simp [Piece.emit]

theorem lowerMember_yields {owner : ClassId} {parts : ClassParts} {s : MemberSummary}
    (program : owner.program = o.program) (same : Matches o owner parts s) (name : String)
    (m : MemberTree) :
    ∃ parts', Yields o s.after (lowerMember o name owner parts m) parts'
        (m.definitions name owner s.after) [] (s.add name owner m).after ∧
      Matches o owner parts' (s.add name owner m) := by
  cases m with
  | method f =>
    refine ⟨_, (lowerFunction_yields s.after f s!"{name}.{f.name}" owner).then_pure rfl,
      same.statics, ?_, same.inside, ?_, ?_⟩
    · simp only [MemberSummary.add, MemberTree.addMethod, same.methods, program]
    · simpa only [MemberSummary.add, MemberTree.fields, List.append_nil] using same.filled
    · simpa only [MemberSummary.add, MemberTree.fields, List.append_nil] using same.solid
  | staticMethod f =>
    refine ⟨_, (lowerFunction_yields s.after f s!"{name}.{f.name}" owner).then_pure rfl,
      ?_, same.methods, same.inside, ?_, ?_⟩
    · simp only [MemberSummary.add, MemberTree.addStatic, same.statics, program]
    · simpa only [MemberSummary.add, MemberTree.fields, List.append_nil] using same.filled
    · simpa only [MemberSummary.add, MemberTree.fields, List.append_nil] using same.solid
  | staticField lines field place value =>
    refine ⟨_, (mark_yields lines).then_pure ?_, field_matches same name lines field place value⟩
    have opened := congrArg Prod.snd
      (Code.reserve_eq (parts.setup ++ Code.ofList (o.emitMark s.after lines)) .constant)
    simp only [Code.reserve] at opened
    rw [opened]

theorem lowerMembers_yields {owner : ClassId} (program : owner.program = o.program) (name : String)
    (members : List MemberTree) {parts : ClassParts} {s : MemberSummary}
    (same : Matches o owner parts s) :
    ∃ parts' ds, Yields o s.after (members.foldlM (lowerMember o name owner) parts) parts' ds []
        (members.foldl (MemberSummary.add name owner) s).after ∧
      Matches o owner parts' (members.foldl (MemberSummary.add name owner) s) ∧
      (members.foldl (MemberSummary.add name owner) s).definitions = s.definitions ++ ds := by
  induction members generalizing parts s with
  | nil => exact ⟨parts, [], .pure _, same, (List.append_nil _).symm⟩
  | cons m rest ih =>
    obtain ⟨first, run, same'⟩ := lowerMember_yields program same name m
    obtain ⟨parts', ds, rerun, same'', definitions⟩ := ih same'
    refine ⟨parts', m.definitions name owner s.after ++ ds, ?_, same'', ?_⟩
    · rw [List.foldlM_cons]
      exact run.bind rerun
    · rw [List.foldl_cons, definitions, MemberSummary.add, List.append_assoc]

theorem addClass_yields (c : ClassDef) :
    Yields o ν (modify fun s => { s with classes := s.classes.push c }) ⟨⟩ [] [c] ν.classDef := by
  intro s at_ν
  refine ⟨{ s with classes := s.classes.push c }, rfl, ?_, by simp, by simp⟩
  exact ⟨at_ν.loops, at_ν.procedures, by simp [Numbering.classDef, at_ν.classes], at_ν.markers⟩

/-- What reads the assembly only to number something. -/
theorem Yields.of_get {f : Assembly → Assembler α} {a : α} {ds : List Definition}
    {cs : List ClassDef} (h : ∀ s, s.At o ν → Yields o ν (f s) a ds cs μ) :
    Yields o ν (get >>= f) a ds cs μ :=
  fun s at_ν => h s at_ν s at_ν

/-- The setup of a class becomes a procedure if there is any. -/
theorem addSetup_yields (c : ClassTree) (ν : Numbering)
    (solid : ∀ piece ∈ (c.summary o.program ν).fields, piece.emit o ≠ []) :
    Yields o (c.summary o.program ν).after.classDef
      (let setup := Code.ofList (emitPieces o (c.summary o.program ν).fields)
       if setup.size = 0 then pure (ClassTree.id o.program ν, none)
       else do
        let code ← finish setup (.ofLine c.line)
        let procedure ← addProcedure o
          ⟨s!"{c.name}.<static>", [], code, c.line, some (ClassTree.id o.program ν)⟩
        pure (ClassTree.id o.program ν, some procedure))
      (ClassTree.id o.program ν, (c.setupIds o.program ν).head?) (c.setup o.program ν) []
      (c.after o.program ν) := by
  simp only [Code.size_ofList]
  cases fields : (c.summary o.program ν).fields with
  | nil =>
    have none : c.setup o.program ν = [] := by rw [ClassTree.setup, fields]
    simp only [emitPieces, List.flatMap_nil, List.length_nil, if_true, ClassTree.setupIds, none,
      ClassTree.after]
    exact .pure _
  | cons piece rest =>
    have some : c.setup o.program ν =
        [⟨s!"{c.name}.<static>", [], some (ClassTree.id o.program ν), c.line, piece :: rest⟩] := by
      rw [ClassTree.setup, fields]
    have solid : (emitPieces o (piece :: rest)).length ≠ 0 := by
      have := solid piece (fields ▸ List.mem_cons_self)
      simpa [emitPieces] using fun h => absurd h this
    have procedure := addProcedure_yields o (c.summary o.program ν).after.classDef
      ⟨s!"{c.name}.<static>", [], Option.some (ClassTree.id o.program ν), c.line, piece :: rest⟩
    rw [if_neg solid, ClassTree.setupIds, some, ClassTree.after, some]
    exact (((finish_yields _ _).bind (procedure.then_pure rfl))).of_eq rfl rfl rfl

theorem lowerClass_yields (ν : Numbering) (c : ClassTree) :
    Yields o ν (lowerClass o c) (ClassTree.id o.program ν, (c.setupIds o.program ν).head?)
      (c.definitions o.program ν) [c.classDef o.program ν] (c.after o.program ν) := by
  refine Yields.of_get fun s at_ν => ?_
  rw [at_ν.classes]
  have start : Matches o (ClassTree.id o.program ν) ⟨.empty, .empty, .empty, []⟩
      ⟨ν, [], .empty, .empty, []⟩ := ⟨rfl, rfl, by simp, rfl, by simp⟩
  obtain ⟨parts, ds, run, same, definitions⟩ := lowerMembers_yields rfl c.name c.members start
  change Matches o _ parts (c.summary o.program ν) at same
  change (c.summary o.program ν).definitions = [] ++ ds at definitions
  have setup := addSetup_yields c ν same.solid
  rw [← same.filled] at setup
  refine (run.bind ((addClass_yields ⟨c.name, parts.statics, parts.methods⟩).bind setup)).of_eq rfl
    ?_ ?_
  · rw [ClassTree.definitions, definitions]
    rfl
  · rw [same.statics, same.methods]
    rfl

/-- The compiled top level of a module so far. -/
def topLevelOf (o : LoweringOptions) (s : ItemSummary) : TopLevel :=
  ⟨s.members, s.setups, Code.ofList (emitPieces o s.body)⟩

theorem head?_setupIds (c : ClassTree) (program : ProgramId) (ν : Numbering) :
    (c.setupIds program ν).head?.toList = c.setupIds program ν := by
  unfold ClassTree.setupIds ClassTree.setup
  split <;> rfl

theorem lowerItem_yields (s : ItemSummary) (item : Item) :
    ∃ ds cs, Yields o s.after (lowerItem o (topLevelOf o s) item)
        (topLevelOf o (s.add o.program item)) ds cs (s.add o.program item).after ∧
      (s.add o.program item).definitions = s.definitions ++ ds ∧
      (s.add o.program item).classes = s.classes ++ cs := by
  cases item with
  | function f =>
    exact ⟨_, [], (lowerFunction_yields s.after f f.name none).then_pure rfl, rfl,
      (List.append_nil _).symm⟩
  | classDef c =>
    refine ⟨_, _, (lowerClass_yields s.after c).then_pure ?_, rfl, rfl⟩
    simp only [topLevelOf, ItemSummary.add, head?_setupIds]
  | statement t =>
    refine ⟨_, [], (lowerStmt_yields s.after t).then_pure ?_, rfl, (List.append_nil _).symm⟩
    simp [topLevelOf, ItemSummary.add, emitPieces, Piece.emit, emitBlock]

theorem lowerItems_yields (items : List Item) (s : ItemSummary) :
    ∃ ds cs, Yields o s.after (items.foldlM (lowerItem o) (topLevelOf o s))
        (topLevelOf o (items.foldl (ItemSummary.add o.program) s)) ds cs
        (items.foldl (ItemSummary.add o.program) s).after ∧
      (items.foldl (ItemSummary.add o.program) s).definitions = s.definitions ++ ds ∧
      (items.foldl (ItemSummary.add o.program) s).classes = s.classes ++ cs := by
  induction items generalizing s with
  | nil => exact ⟨[], [], .pure _, (List.append_nil _).symm, (List.append_nil _).symm⟩
  | cons item rest ih =>
    obtain ⟨ds, cs, run, definitions, classes⟩ := lowerItem_yields (o := o) s item
    obtain ⟨es, bs, rerun, definitions', classes'⟩ := ih (s.add o.program item)
    refine ⟨ds ++ es, cs ++ bs, ?_, ?_, ?_⟩
    · rw [List.foldlM_cons]
      exact run.bind rerun
    · rw [List.foldl_cons, definitions', definitions, List.append_assoc]
    · rw [List.foldl_cons, classes', classes, List.append_assoc]

end Assembler

/-- What a module compiles to is read off its tree. -/
structure Lowered (m : ModuleTree) (o : LoweringOptions) (parts : ProgramParts) : Prop where
  procedures : parts.procedures.toList = (m.definitions o.program).map (·.procedure o)
  classes : parts.classes.toList = (m.summary o.program).classes
  members : parts.members = (m.summary o.program).members
  topLevel : parts.topLevel = some ⟨o.program, (m.summary o.program).after.procedures⟩
  classSetups : parts.classSetups = (m.summary o.program).setups

/-- Each compiled procedure is that of a definition. -/
theorem Lowered.mem_procedures_iff {m : ModuleTree} {o : LoweringOptions} {parts : ProgramParts}
    (lowered : Lowered m o parts) {p : Procedure} :
    p ∈ parts.procedures ↔ ∃ d ∈ m.definitions o.program, d.procedure o = p := by
  rw [← Array.mem_toList_iff, lowered.procedures, List.mem_map]

/-- Compiling never fails; in particular no slot stays open. -/
theorem ModuleTree.lower_eq (m : ModuleTree) (o : LoweringOptions) :
    ∃ parts, m.lower o = .ok parts ∧ Lowered m o parts := by
  obtain ⟨ds, cs, run, definitions, classes⟩ :=
    Assembler.lowerItems_yields (o := o) m.items ⟨.start, [], [], .empty, [], []⟩
  obtain ⟨s, lowered, at_ν, procedures, classes'⟩ := run default ⟨rfl, rfl, rfl, fun _ => rfl⟩
  change s.At o (m.summary o.program).after at at_ν
  change (m.summary o.program).definitions = [] ++ ds at definitions
  change (m.summary o.program).classes = [] ++ cs at classes
  let body : Definition := ⟨moduleProcedure, [], none, 1, (m.summary o.program).body⟩
  let parts : ProgramParts :=
    { procedures := s.procedures.push (body.procedure o)
      classes := s.classes
      members := (m.summary o.program).members
      topLevel := some ⟨o.program, s.procedures.size⟩
      classSetups := (m.summary o.program).setups
      markers := s.markers }
  refine ⟨parts, ?_, ?_, ?_, rfl, ?_, rfl⟩
  · have assembled : Assembler.lowerModule o m default =
        .ok (parts, { s with procedures := s.procedures.push (body.procedure o) }) := by
      change (List.foldlM (m := Assembler) (Assembler.lowerItem o) ⟨.empty, [], .empty⟩ m.items default
        >>= fun p => _) = _
      erw [lowered]
      change ((Assembler.finish (Code.ofList _) m.stop) s >>= fun p => _) = _
      unfold Assembler.finish
      rw [Code.finish_ofList]
      rfl
    change (Assembler.lowerModule o m default >>= fun p => _) = _
    rw [assembled]
    rfl
  · rw [ModuleTree.definitions, List.map_append, definitions, Array.toList_push, procedures]
    rfl
  · rw [classes', classes]
    rfl
  · change some (⟨o.program, s.procedures.size⟩ : ProcedureId) = _
    rw [at_ν.procedures]

end ScriptEngine
