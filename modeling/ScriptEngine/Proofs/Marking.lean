import ScriptEngine.Proofs.Unmarking
import ScriptEngine.Proofs.WellFormed

/-! # Registered markers

Compiling registers a marker for each statement and each static field, in source order, and puts an instruction in
front of its code that refers to it by number. The code itself is not in source order: a function has its own list, and
the static fields of a class are set by one procedure behind all methods. `Tallies` counts how often each marker occurs
in the code of a stretch of source and in the procedures that the stretch defines. In the end each registered marker
stands in exactly one place, so that markers are the only trace of the wish to have them.
-/

namespace ScriptEngine

mutual

/-- The lines of the markers of a statement, in the order in which they are registered. -/
def Stmt.marks : Stmt → List Lines
  | .eval lines _ | .assign lines _ _ _ | .ret lines _ => [lines]
  | .branch line _ body otherwise => ⟨line, line⟩ :: (blockMarks body ++ otherwise.marks)
  | .whileLoop line _ body => ⟨line, line⟩ :: blockMarks body
  | .forLoop place _ _ _ body => ⟨place.line, place.line⟩ :: blockMarks body
  | .guarded line body _ handler => ⟨line, line⟩ :: (blockMarks body ++ blockMarks handler)
  | .define place _ _ body => ⟨place.line, place.line⟩ :: blockMarks body

/-- The lines of the markers of some statements. -/
def blockMarks : List Stmt → List Lines
  | [] => []
  | s :: rest => s.marks ++ blockMarks rest

/-- The lines of the markers of the arms of a conditional behind the first. -/
def Otherwise.marks : Otherwise → List Lines
  | .nothing => []
  | .block body => blockMarks body
  | .branch _ body otherwise => blockMarks body ++ otherwise.marks

end

def MemberTree.marks : MemberTree → List Lines
  | .method f | .staticMethod f => blockMarks f.body
  | .staticField lines _ _ _ => [lines]

def Item.marks : Item → List Lines
  | .function f => blockMarks f.body
  | .classDef c => c.members.flatMap MemberTree.marks
  | .statement s => s.marks

/-- The lines of all markers of a module, in the order in which they are registered. -/
def ModuleTree.marks (m : ModuleTree) : List Lines := m.items.flatMap Item.marks

/-- The markers that are registered for some marks: none if they are not wanted. -/
def LoweringOptions.registered (o : LoweringOptions) (ms : List Lines) : List Marker :=
  if o.breakpoints then ms.map .ofLines else []

@[simp] theorem LoweringOptions.registered_nil (o : LoweringOptions) : o.registered [] = [] := by simp [registered]

@[simp] theorem LoweringOptions.registered_append (o : LoweringOptions) (ms ns : List Lines) :
    o.registered (ms ++ ns) = o.registered ms ++ o.registered ns := by
  unfold registered
  split <;> simp

namespace Assembler

variable {α β γ : Type} {o : LoweringOptions} {ms ns : List Lines}

/-- A step of compiling that registers the markers of these marks, if it does not fail. -/
def Registers (o : LoweringOptions) (x : Assembler α) (ms : List Lines) : Prop :=
  ∀ s a s', x s = .ok (a, s') → s'.markers.toList = s.markers.toList ++ o.registered ms

theorem bind_eq_ok {x : Assembler α} {f : α → Assembler β} {s t : Assembly} {b : β}
    (run : (x >>= f) s = .ok (b, t)) : ∃ a s', x s = .ok (a, s') ∧ f a s' = .ok (b, t) := by
  change (x s >>= fun p => f p.1 p.2) = _ at run
  cases first : x s with
  | error e =>
    rw [first] at run
    cases run
  | ok p =>
    rw [first] at run
    exact ⟨p.1, p.2, rfl, run⟩

theorem Registers.pure (a : α) : Registers o (pure a) [] := by
  rintro s b s' ⟨⟩
  simp

theorem Registers.bind {x : Assembler α} {f : α → Assembler β} (first : Registers o x ms)
    (second : ∀ a, Registers o (f a) ns) : Registers o (x >>= f) (ms ++ ns) := by
  intro s b t run
  obtain ⟨a, s', started, ended⟩ := bind_eq_ok run
  rw [second a s' b t ended, first s a s' started, LoweringOptions.registered_append, List.append_assoc]

/-- What follows registers nothing. -/
theorem Registers.and_then {x : Assembler α} {f : α → Assembler β} (first : Registers o x ms)
    (second : ∀ a, Registers o (f a) []) : Registers o (x >>= f) ms := by
  simpa using first.bind second

theorem Registers.then_pure {x : Assembler α} {f : α → β} (first : Registers o x ms) :
    Registers o (x >>= fun a => Pure.pure (f a)) ms :=
  first.and_then fun a => .pure (f a)

theorem get_registers : Registers o get [] := by
  rintro s a s' ⟨⟩
  simp

theorem mark_registers (lines : Lines) : Registers o (mark o lines) [lines] := by
  intro s a s' run
  unfold mark at run
  split at run
  · next wanted =>
    cases run
    simp [LoweringOptions.registered, wanted]
  · next unwanted =>
    cases run
    simp [LoweringOptions.registered, unwanted]

theorem nextLoop_registers : Registers o nextLoop [] := by
  rintro s a s' ⟨⟩
  simp

theorem finish_registers (code : Code) (place : Position) : Registers o (finish code place) [] := by
  unfold finish
  split
  · exact .pure _
  · intro s a s' run
    cases run

theorem addProcedure_registers (o : LoweringOptions) (p : Procedure) : Registers o (addProcedure o p) [] := by
  rintro s a s' ⟨⟩
  simp

theorem addFunction_registers (name : String) (params : List ParamTree) (owner : Option ClassId) (body : Code)
    (place : Position) : Registers o (addFunction o name params owner body place) [] :=
  (finish_registers _ _).bind fun _ => addProcedure_registers o _

theorem addClass_registers (c : ClassDef) :
    Registers o (modify fun s => { s with classes := s.classes.push c }) [] := by
  rintro s a s' ⟨⟩
  simp

theorem foldlM_registers {step : β → γ → Assembler β} {marks : γ → List Lines}
    (each : ∀ b x, Registers o (step b x) (marks x)) (xs : List γ) (b : β) :
    Registers o (xs.foldlM step b) (xs.flatMap marks) := by
  induction xs generalizing b with
  | nil => exact .pure b
  | cons x rest ih => exact (each b x).bind fun b => ih b

mutual

theorem lowerStmt_registers (s : Stmt) : Registers o (lowerStmt o s) s.marks := by
  cases s with
  | eval lines | assign lines | ret lines => exact (mark_registers lines).then_pure
  | branch line condition body otherwise =>
    exact (mark_registers _).bind fun _ => (lowerBlock_registers body).bind fun _ =>
      (lowerOtherwise_registers otherwise).then_pure
  | whileLoop line condition body =>
    exact (mark_registers _).bind fun _ => (lowerBlock_registers body).then_pure
  | forLoop place name namePlace items body =>
    exact (mark_registers _).bind fun _ => nextLoop_registers.bind fun _ =>
      (lowerBlock_registers body).then_pure
  | guarded line body binding handler =>
    exact (mark_registers _).bind fun _ => (lowerBlock_registers body).bind fun _ =>
      (lowerBlock_registers handler).then_pure
  | define place name params body =>
    exact (mark_registers _).bind fun _ => (lowerBlock_registers body).and_then fun _ =>
      (addFunction_registers _ _ _ _ _).then_pure

theorem lowerBlock_registers (body : List Stmt) : Registers o (lowerBlock o body) (blockMarks body) := by
  cases body with
  | nil => exact .pure _
  | cons s rest => exact (lowerStmt_registers s).bind fun _ => (lowerBlock_registers rest).then_pure

theorem lowerOtherwise_registers (otherwise : Otherwise) :
    Registers o (lowerOtherwise o otherwise) otherwise.marks := by
  cases otherwise with
  | nothing => exact .pure _
  | block body => exact (lowerBlock_registers body).then_pure
  | branch condition body otherwise =>
    exact (lowerBlock_registers body).bind fun _ => (lowerOtherwise_registers otherwise).then_pure

end

theorem lowerFunction_registers (f : FunctionTree) (name : String) (owner : Option ClassId) :
    Registers o (lowerFunction o f name owner) (blockMarks f.body) :=
  (lowerBlock_registers f.body).and_then fun _ => addFunction_registers _ _ _ _ _

theorem lowerMember_registers (name : String) (owner : ClassId) (parts : ClassParts) (m : MemberTree) :
    Registers o (lowerMember o name owner parts m) m.marks := by
  cases m with
  | method f | staticMethod f => exact (lowerFunction_registers f _ _).then_pure
  | staticField lines field place value => exact (mark_registers lines).then_pure

theorem lowerClass_registers (c : ClassTree) :
    Registers o (lowerClass o c) (c.members.flatMap MemberTree.marks) := by
  refine get_registers.bind fun s => (foldlM_registers (lowerMember_registers _ _) _ _).and_then fun parts => ?_
  refine (addClass_registers _).bind fun _ => ?_
  dsimp only
  split
  · exact .pure _
  · exact (finish_registers _ _).bind fun _ => (addProcedure_registers o _).then_pure

theorem lowerItem_registers (top : TopLevel) (item : Item) : Registers o (lowerItem o top item) item.marks := by
  cases item with
  | function f => exact (lowerFunction_registers f _ _).then_pure
  | classDef c => exact (lowerClass_registers c).then_pure
  | statement s => exact (lowerStmt_registers s).then_pure

theorem lowerModule_registers (m : ModuleTree) : Registers o (lowerModule o m) m.marks :=
  (foldlM_registers lowerItem_registers m.items _).and_then fun _ => (finish_registers _ _).bind fun _ =>
    (addProcedure_registers o _).bind fun _ => get_registers.then_pure

/-- A module keeps all markers that are registered in the end. -/
theorem markers_of_lowerModule {m : ModuleTree} {s s' : Assembly} {parts : ProgramParts}
    (run : lowerModule o m s = .ok (parts, s')) : parts.markers = s'.markers := by
  obtain ⟨top, s₁, -, run⟩ := bind_eq_ok run
  obtain ⟨code, s₂, -, run⟩ := bind_eq_ok run
  obtain ⟨id, s₃, -, run⟩ := bind_eq_ok run
  cases run
  rfl

end Assembler

/-- A module registers the markers of its marks, in their order. -/
theorem ModuleTree.markers_of_lower {m : ModuleTree} {o : LoweringOptions} {parts : ProgramParts}
    (lowered : m.lower o = .ok parts) : parts.markers.toList = o.registered m.marks := by
  change (Assembler.lowerModule o m default >>= fun p => .ok p.1) = _ at lowered
  cases run : Assembler.lowerModule o m default with
  | error e =>
    rw [run] at lowered
    cases lowered
  | ok p =>
    rw [run] at lowered
    cases lowered
    rw [Assembler.markers_of_lowerModule run, Assembler.lowerModule_registers m _ _ _ run]
    rfl

/-- The marker that an instruction refers to: its lines and its number. -/
def Instruction.marker? : Instruction → Option (Lines × Nat)
  | .stop index lines => some (lines, index)
  | _ => none

/-- The markers that a list refers to. -/
def markersIn (is : List Instruction) : List (Lines × Nat) := is.filterMap Instruction.marker?

@[simp] theorem markersIn_nil : markersIn [] = [] := rfl

@[simp] theorem markersIn_append (a b : List Instruction) : markersIn (a ++ b) = markersIn a ++ markersIn b :=
  List.filterMap_append

@[simp] theorem markersIn_cons (i : Instruction) (is : List Instruction) :
    markersIn (i :: is) = i.marker?.toList ++ markersIn is := by
  cases i <;> rfl

/-- What no marker is deleted from holds none. -/
theorem Unmarks.markersIn_eq_nil {a : List Instruction} (h : Unmarks a a) : markersIn a = [] := by
  have all := List.countP_eq_length.mp h.paces_eq
  refine List.filterMap_eq_nil_iff.mpr fun i member => ?_
  have stays := all i member
  cases i <;> first | rfl | cases stays

@[simp] theorem Expr.markersIn_emit (e : Expr) : markersIn e.emit = [] := e.unmarks.markersIn_eq_nil

section Fragments

variable (a condition body rest : List Instruction)

@[simp] theorem markersIn_assign (name : String) (place : Position) :
    markersIn (Fragment.assign name a place) = markersIn a := by
  simp [Fragment.assign, Instruction.marker?]

@[simp] theorem markersIn_skipIf (kind : BranchKind) :
    markersIn (Fragment.skipIf kind condition body) = markersIn condition ++ markersIn body := by
  simp [Fragment.skipIf, Instruction.marker?]

@[simp] theorem markersIn_conditional (other : Option (List Instruction)) :
    markersIn (Fragment.conditional condition body other) =
      markersIn condition ++ (markersIn body ++ markersIn (other.getD [])) := by
  cases other <;> simp [Fragment.conditional, Fragment.choose, Instruction.marker?]

@[simp] theorem markersIn_whileLoop :
    markersIn (Fragment.whileLoop condition body) = markersIn condition ++ markersIn body := by
  simp [Fragment.whileLoop, Instruction.marker?]

@[simp] theorem markersIn_guarded (binding : Option String) :
    markersIn (Fragment.guarded body binding rest) = markersIn body ++ markersIn rest := by
  simp [Fragment.guarded, Instruction.marker?]

@[simp] theorem markersIn_forLoop (n : Nat) (place : Position) (name : String) (namePlace : Position) :
    markersIn (Fragment.forLoop n place name namePlace a body) = markersIn a ++ markersIn body := by
  simp [Fragment.forLoop, Instruction.marker?]

end Fragments

/-- The markers that the code of some procedures refers to. -/
def markersOf (o : LoweringOptions) (ds : List Definition) : List (Lines × Nat) :=
  ds.flatMap fun d => markersIn (emitPieces o d.body)

@[simp] theorem markersOf_nil (o : LoweringOptions) : markersOf o [] = [] := rfl

@[simp] theorem markersOf_cons (o : LoweringOptions) (d : Definition) (ds : List Definition) :
    markersOf o (d :: ds) = markersIn (emitPieces o d.body) ++ markersOf o ds := List.flatMap_cons

@[simp] theorem markersOf_append (o : LoweringOptions) (ds es : List Definition) :
    markersOf o (ds ++ es) = markersOf o ds ++ markersOf o es := List.flatMap_append

/-- A stretch of source with these marks, compiled from `ν` to `μ` to the code `is` and the procedures `ds`: each
marker that it registers stands there as often as it is registered, and no other does. -/
structure Tallies (o : LoweringOptions) (ν : Numbering) (ms : List Lines) (ds : List Definition)
    (is : List Instruction) (μ : Numbering) : Prop where
  count : ∀ m, (markersIn is).count m + (markersOf o ds).count m = (ms.zipIdx ν.markers).count m
  after : μ.markers = ν.markers + ms.length

namespace Tallies

variable {o : LoweringOptions} {ν μ ξ : Numbering} {ms ns : List Lines} {ds es : List Definition}
  {is js : List Instruction}

theorem nil : Tallies o ν [] [] [] ν := ⟨fun _ => rfl, rfl⟩

theorem append (first : Tallies o ν ms ds is μ) (second : Tallies o μ ns es js ξ) :
    Tallies o ν (ms ++ ns) (ds ++ es) (is ++ js) ξ where
  count m := by
    have here := first.count m
    have further := second.count m
    rw [first.after] at further
    simp only [markersIn_append, markersOf_append, List.zipIdx_append, List.count_append]
    omega
  after := by rw [second.after, first.after, List.length_append, Nat.add_assoc]

/-- Only the markers of the code matter. -/
theorem code (h : Tallies o ν ms ds is μ) (same : markersIn js = markersIn is) : Tallies o ν ms ds js μ :=
  ⟨fun m => same ▸ h.count m, h.after⟩

/-- Only the number of markers matters. -/
theorem ends (h : Tallies o ν ms ds is μ) (same : ξ.markers = μ.markers) : Tallies o ν ms ds is ξ :=
  ⟨h.count, same.trans h.after⟩

/-- Code that becomes a procedure of its own. -/
theorem enclose {d : Definition} (h : Tallies o ν ms ds (emitPieces o d.body) μ) (same : ξ.markers = μ.markers) :
    Tallies o ν ms (ds ++ [d]) [] ξ where
  count m := by
    have here := h.count m
    simp only [markersOf_append, markersOf_cons, markersOf_nil, List.append_nil, List.count_append, markersIn_nil,
      List.count_nil]
    omega
  after := same.trans h.after

theorem mark (marked : o.breakpoints = true) (lines : Lines) (ν : Numbering) :
    Tallies o ν [lines] [] (o.emitMark ν lines) ν.mark where
  count m := by simp [LoweringOptions.emitMark, marked, Instruction.marker?]
  after := rfl

end Tallies

section Source

variable {o : LoweringOptions}

theorem Target.markersIn_emit (t : Target) (e : Expr) (place : Position) : markersIn (t.emit e.emit place) = [] :=
  (t.unmarks place e.unmarks).markersIn_eq_nil

mutual

theorem Stmt.tallies (marked : o.breakpoints = true) (ν : Numbering) (s : Stmt) :
    Tallies o ν s.marks (s.definitions ν) (s.emit o ν) (s.after ν) := by
  cases s with
  | eval lines value => exact (Tallies.mark marked lines ν).code (by simp [Stmt.emit, Instruction.marker?])
  | assign lines target value place =>
    exact (Tallies.mark marked lines ν).code (by simp [Stmt.emit, Target.markersIn_emit])
  | ret lines value =>
    refine (Tallies.mark marked lines ν).code ?_
    cases value <;> simp [Stmt.emit, Instruction.marker?]
  | branch line condition body otherwise =>
    have parts := (Tallies.mark marked ⟨line, line⟩ ν).append
      ((blockTallies marked ν.mark body).append (otherwise.tallies marked _))
    exact parts.code (by simp [Stmt.emit])
  | whileLoop line condition body =>
    have parts := (Tallies.mark marked ⟨line, line⟩ ν).append (blockTallies marked ν.mark body)
    exact parts.code (by simp [Stmt.emit])
  | forLoop place name namePlace items body =>
    have mark : Tallies o ν _ _ _ ν.mark.loop := (Tallies.mark marked ⟨place.line, place.line⟩ ν).ends rfl
    exact (mark.append (blockTallies marked _ body)).code (by simp [Stmt.emit])
  | guarded line body binding handler =>
    have parts := (Tallies.mark marked ⟨line, line⟩ ν).append
      ((blockTallies marked ν.mark body).append (blockTallies marked _ handler))
    exact parts.code (by simp [Stmt.emit])
  | define place name params body =>
    -- What the body refers to stands in the procedure, and nothing of it in the code of the statement.
    have procedure : Tallies o ν.mark (blockMarks body) _ [] (blockAfter ν.mark body).procedure :=
      Tallies.enclose (d := ⟨name, params, none, place.line, [.block ν.mark body]⟩)
        ((blockTallies marked ν.mark body).code (by simp [emitPieces, Piece.emit])) rfl
    have parts := (Tallies.mark marked ⟨place.line, place.line⟩ ν).append procedure
    exact parts.code (by simp [Stmt.emit, Instruction.marker?])

theorem blockTallies (marked : o.breakpoints = true) (ν : Numbering) (body : List Stmt) :
    Tallies o ν (blockMarks body) (blockDefinitions ν body) (emitBlock o ν body) (blockAfter ν body) := by
  cases body with
  | nil => exact .nil
  | cons s rest => exact (s.tallies marked ν).append (blockTallies marked _ rest)

theorem Otherwise.tallies (marked : o.breakpoints = true) (ν : Numbering) (otherwise : Otherwise) :
    Tallies o ν otherwise.marks (otherwise.definitions ν) ((otherwise.emit o ν).getD []) (otherwise.after ν) := by
  cases otherwise with
  | nothing => exact .nil
  | block body => exact blockTallies marked ν body
  | branch condition body otherwise =>
    exact ((blockTallies marked ν body).append (otherwise.tallies marked _)).code (by simp [Otherwise.emit])

end

theorem FunctionTree.tallies (marked : o.breakpoints = true) (f : FunctionTree) (name : String)
    (owner : Option ClassId) (ν : Numbering) :
    Tallies o ν (blockMarks f.body) (f.definitions name owner ν) [] (f.after ν) :=
  .enclose ((blockTallies marked ν f.body).code (by simp [emitPieces, Piece.emit])) rfl

theorem MemberTree.tallies (marked : o.breakpoints = true) (className : String) (owner : ClassId) (ν : Numbering)
    (m : MemberTree) :
    Tallies o ν m.marks (m.definitions className owner ν) (emitPieces o (m.fields owner ν)) (m.after ν) := by
  cases m with
  | method f | staticMethod f => exact f.tallies marked _ _ ν
  | staticField lines field place value =>
    exact (Tallies.mark marked lines ν).code (by simp [fields, emitPieces, Piece.emit, Instruction.marker?])

/-- The members of a class: methods have procedures of their own, static fields are set by common code. -/
theorem membersTally (marked : o.breakpoints = true) (className : String) (owner : ClassId) {ν : Numbering}
    {ms : List Lines} (members : List MemberTree) (s : MemberSummary)
    (before : Tallies o ν ms s.definitions (emitPieces o s.fields) s.after) :
    let all := members.foldl (MemberSummary.add className owner) s
    Tallies o ν (ms ++ members.flatMap MemberTree.marks) all.definitions (emitPieces o all.fields) all.after := by
  induction members generalizing s ms with
  | nil => simpa using before
  | cons m rest ih =>
    have parts := before.append (m.tallies marked className owner s.after)
    have whole := ih (s.add className owner m) (parts.code (by simp [MemberSummary.add, emitPieces]))
    simpa using whole

theorem ClassTree.tallies (marked : o.breakpoints = true) (c : ClassTree) (ν : Numbering) :
    Tallies o ν (c.members.flatMap MemberTree.marks) (c.definitions o.program ν) [] (c.after o.program ν) := by
  have members := membersTally marked c.name (id o.program ν) c.members ⟨ν, [], .empty, .empty, []⟩ .nil
  change Tallies o ν _ (c.summary o.program ν).definitions (emitPieces o (c.summary o.program ν).fields) _ at members
  unfold definitions setup
  split
  · next none =>
    rw [none] at members
    simpa [emitPieces] using members.ends (ξ := c.after o.program ν) rfl
  · exact .enclose members rfl

theorem Item.tallies (marked : o.breakpoints = true) (item : Item) (s : ItemSummary) {ν : Numbering}
    {ms : List Lines} (before : Tallies o ν ms s.definitions (emitPieces o s.body) s.after) :
    let all := s.add o.program item
    Tallies o ν (ms ++ item.marks) all.definitions (emitPieces o all.body) all.after := by
  cases item with
  | function f => exact (before.append (f.tallies marked f.name none s.after)).code (by simp [ItemSummary.add])
  | classDef c => exact (before.append (c.tallies marked s.after)).code (by simp [ItemSummary.add])
  | statement t =>
    exact (before.append (t.tallies marked s.after)).code
      (by simp [ItemSummary.add, emitPieces, Piece.emit, emitBlock])

theorem itemsTally (marked : o.breakpoints = true) {ν : Numbering} {ms : List Lines} (items : List Item)
    (s : ItemSummary) (before : Tallies o ν ms s.definitions (emitPieces o s.body) s.after) :
    let all := items.foldl (ItemSummary.add o.program) s
    Tallies o ν (ms ++ items.flatMap Item.marks) all.definitions (emitPieces o all.body) all.after := by
  induction items generalizing s ms with
  | nil => simpa using before
  | cons item rest ih => simpa using ih _ (item.tallies marked s before)

/-- The code of a module refers to each of its markers once. -/
theorem ModuleTree.markersOf_perm (marked : o.breakpoints = true) (m : ModuleTree) :
    (markersOf o (m.definitions o.program)).Perm m.marks.zipIdx := by
  have items : Tallies o .start m.marks (m.summary o.program).definitions
      (emitPieces o (m.summary o.program).body) (m.summary o.program).after :=
    itemsTally marked m.items ⟨.start, [], [], .empty, [], []⟩ .nil
  have whole : Tallies o .start m.marks (m.definitions o.program) [] (m.summary o.program).after :=
    items.enclose rfl
  exact List.perm_iff_count.mpr fun x => (Nat.zero_add _).symm.trans (whole.count x)

end Source

/-- What a module compiles to as if markers had not been wanted. -/
def ProgramParts.withoutMarkers (parts : ProgramParts) : ProgramParts :=
  { parts with procedures := parts.procedures.map Procedure.withoutMarkers, markers := #[] }

/-- Compiling with markers and deleting them is compiling without. -/
theorem ModuleTree.withoutMarkers_of_lower {m : ModuleTree} {o : LoweringOptions} {parts : ProgramParts}
    (lowered : m.lower o = .ok parts) : m.lower o.quiet = .ok parts.withoutMarkers := by
  obtain ⟨_, same, read⟩ := m.lower_eq o
  obtain rfl := Except.ok.inj (lowered.symm.trans same)
  obtain ⟨plain, compiled, readAgain⟩ := m.lower_eq o.quiet
  have procedures : parts.procedures.map Procedure.withoutMarkers = plain.procedures := by
    apply Array.toList_inj.mp
    rw [Array.toList_map, read.procedures, readAgain.procedures, List.map_map]
    exact List.map_congr_left fun d _ => d.withoutMarkers_procedure o
  have classes : parts.classes = plain.classes := Array.toList_inj.mp (read.classes.trans readAgain.classes.symm)
  have members : parts.members = plain.members := read.members.trans readAgain.members.symm
  have topLevel : parts.topLevel = plain.topLevel := read.topLevel.trans readAgain.topLevel.symm
  have classSetups : parts.classSetups = plain.classSetups := read.classSetups.trans readAgain.classSetups.symm
  have markers : #[] = plain.markers := Array.toList_inj.mp (m.markers_of_lower compiled).symm
  rw [compiled, ProgramParts.withoutMarkers, procedures, classes, members, topLevel, classSetups, markers]

namespace Program

/-- A program as if its markers had not been wanted. -/
def withoutMarkers (p : Program) : Program := { p with toProgramParts := p.toProgramParts.withoutMarkers }

/-- The markers that the instructions of a program refer to, one for each instruction that refers to one. -/
def markerUses (p : Program) : List (Lines × Nat) := p.procedures.toList.flatMap fun q => markersIn q.code.toList

theorem withoutMarkers_refused (file : String) (digest : SourceDigest) (failure : ParseError) :
    (refused file digest failure).withoutMarkers = refused file digest failure := by
  have none : (default : ProgramParts).procedures.map Procedure.withoutMarkers = #[] := Array.map_empty
  simp only [refused, ofParts, withoutMarkers, ProgramParts.withoutMarkers, none]
  rfl

theorem withoutMarkers_ofSource (source file : String) (o : LoweringOptions) :
    (ofSource source file o).withoutMarkers = ofSource source file o.quiet := by
  cases parsed : ModuleTree.ofSource source with
  | error fault =>
    rw [ofSource_refused file o parsed, ofSource_refused file o.quiet parsed]
    exact withoutMarkers_refused _ _ _
  | ok m =>
    obtain ⟨parts, lowered, -⟩ := m.lower_eq o
    rw [ofSource_of_lower file parsed lowered, ofSource_of_lower file parsed (m.withoutMarkers_of_lower lowered)]
    rfl

/-- The instructions of a program refer to each of its markers once. -/
theorem markerUses_perm (source file : String) {o : LoweringOptions} (marked : o.breakpoints = true) :
    let p := ofSource source file o
    p.markerUses.Perm (p.markers.toList.map Marker.lines).zipIdx := by
  intro p
  cases parsed : ModuleTree.ofSource source with
  | error fault =>
    simp only [p, ofSource_refused file o parsed]
    exact .nil
  | ok m =>
    obtain ⟨parts, lowered, read⟩ := m.lower_eq o
    simp only [p, ofSource_of_lower file parsed lowered]
    have lines : parts.markers.toList.map Marker.lines = m.marks := by
      rw [m.markers_of_lower lowered, LoweringOptions.registered, if_pos marked, List.map_map]
      exact List.map_id' _
    have uses : parts.procedures.toList.flatMap (fun q => markersIn q.code.toList) =
        markersOf o (m.definitions o.program) := by
      rw [read.procedures, List.flatMap_map]
      rfl
    change (parts.procedures.toList.flatMap _).Perm (parts.markers.toList.map Marker.lines).zipIdx
    rw [lines, uses]
    exact m.markersOf_perm marked

/-- Markers are the only trace of the wish to have them. A text is refused with the same report with markers and
without. Otherwise the programs have the same members and classes, and the procedures with the same numbers have the
same names, parameters, lines and owners, so that constants refer to procedures and classes that correspond. The code
without markers is the code with markers once these are deleted and every offset leads to where its target has gone.
Each instruction that refers to a marker names one that is registered, with its lines, and no two name the same. -/
theorem ofSource_markers_only (source file : String) (program : ProgramId) :
    let marked := ofSource source file ⟨program, true⟩
    marked.withoutMarkers = ofSource source file ⟨program, false⟩ ∧
      (∀ use ∈ marked.markerUses, ∃ marker, marked.markers[use.2]? = some marker ∧ marker.lines = use.1) ∧
      (marked.markerUses.map Prod.snd).Nodup := by
  intro marked
  have once : marked.markerUses.Perm _ := markerUses_perm source file (o := ⟨program, true⟩) rfl
  refine ⟨withoutMarkers_ofSource source file ⟨program, true⟩, fun use member => ?_, ?_⟩
  · have registered := List.mem_zipIdx_iff_getElem?.mp (once.mem_iff.mp member)
    rw [List.getElem?_map, Array.getElem?_toList] at registered
    simpa using registered
  · rw [(once.map Prod.snd).nodup_iff, List.zipIdx_map_snd]
    exact List.nodup_range'

end Program

end ScriptEngine
