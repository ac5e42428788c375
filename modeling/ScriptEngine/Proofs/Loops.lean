import Mathlib.Data.List.Infix
import ScriptEngine.Proofs.LoopVariables

/-! # The loops of a module

The loops over elements in a module, each with the numbers that its parts start at, and where the code of each stands.
Only one loop of a procedure has a number, and what is hidden is read and assigned only by the instructions of the loop
itself: not by those of its container, and not by those of its body.
-/

namespace ScriptEngine

/-- A loop over elements, and the numbering before it. -/
structure ForLoop where
  ν : Numbering
  place : Position
  name : String
  namePlace : Position
  items : Expr
  body : List Stmt

namespace ForLoop

/-- The number that the variables of a loop are made up from. -/
def number (ℓ : ForLoop) : Nat := ℓ.ν.loops

/-- The instructions of the body of a loop. -/
def bodyCode (ℓ : ForLoop) (o : LoweringOptions) : List Instruction := emitBlock o ℓ.ν.mark.loop ℓ.body

/-- The instructions of a loop, without its marker. -/
def emit (ℓ : ForLoop) (o : LoweringOptions) : List Instruction :=
  Fragment.forLoop ℓ.number ℓ.place ℓ.name ℓ.namePlace ℓ.items.emit (ℓ.bodyCode o)

end ForLoop

mutual

/-- The loops in a statement, but not those in procedures that it defines. -/
def Stmt.forLoops (ν : Numbering) : Stmt → List ForLoop
  | .eval .. | .assign .. | .ret .. | .define .. => []
  | .branch _ _ body otherwise => blockForLoops ν.mark body ++ otherwise.forLoops (blockAfter ν.mark body)
  | .whileLoop _ _ body => blockForLoops ν.mark body
  | .forLoop place name namePlace items body =>
    ⟨ν, place, name, namePlace, items, body⟩ :: blockForLoops ν.mark.loop body
  | .guarded _ body _ handler => blockForLoops ν.mark body ++ blockForLoops (blockAfter ν.mark body) handler

/-- The loops in some statements. -/
def blockForLoops (ν : Numbering) : List Stmt → List ForLoop
  | [] => []
  | s :: rest => s.forLoops ν ++ blockForLoops (s.after ν) rest

/-- The loops in the arms of a conditional behind the first. -/
def Otherwise.forLoops (ν : Numbering) : Otherwise → List ForLoop
  | .nothing => []
  | .block body => blockForLoops ν body
  | .branch _ body otherwise => blockForLoops ν body ++ otherwise.forLoops (blockAfter ν body)

end

/-- The loops in a stretch of a body. -/
def Piece.forLoops : Piece → List ForLoop
  | .block ν body => blockForLoops ν body
  | .field .. => []

/-- The loops in the body of a procedure. -/
def Definition.forLoops (d : Definition) : List ForLoop := d.body.flatMap Piece.forLoops

/-- The code of a loop is part of some code, and its names and calls are among some names and calls. -/
structure ForLoop.IsPartOf (ℓ : ForLoop) (o : LoweringOptions) (is : List Instruction) (names : List String)
    (calls : List SpelledCall) : Prop where
  code : ℓ.emit o <:+: is
  names : ∀ name ∈ ℓ.name :: blockNames ℓ.body, name ∈ names
  calls : ∀ c ∈ ℓ.items.calls ++ blockCalls ℓ.body, c ∈ calls

section

variable {o : LoweringOptions} {ℓ : ForLoop} {is js : List Instruction} {names more : List String}
  {calls further : List SpelledCall}

theorem ForLoop.IsPartOf.mono (part : ℓ.IsPartOf o is names calls) (code : is <:+: js)
    (named : ∀ name ∈ names, name ∈ more) (called : ∀ c ∈ calls, c ∈ further) : ℓ.IsPartOf o js more further :=
  ⟨part.code.trans code, fun name here => named name (part.names name here),
    fun c here => called c (part.calls c here)⟩

theorem Fragment.infix_skipIf (kind : BranchKind) (condition body : List Instruction) :
    body <:+: Fragment.skipIf kind condition body :=
  ((List.suffix_cons _ body).trans (List.suffix_append ..)).isInfix

theorem Fragment.infix_conditional (condition body : List Instruction) (rest : Option (List Instruction)) :
    body <:+: Fragment.conditional condition body rest ∧
      ∀ is, rest = some is → is <:+: Fragment.conditional condition body rest := by
  cases rest with
  | none => exact ⟨infix_skipIf .., nofun⟩
  | some other =>
    refine ⟨((List.suffix_cons _ body).trans (List.suffix_append ..)).isInfix.trans
      (List.prefix_append ..).isInfix, ?_⟩
    rintro _ ⟨⟩
    exact ((List.suffix_cons _ other).trans (List.suffix_append ..)).isInfix

theorem Fragment.infix_whileLoop (condition body : List Instruction) : body <:+: Fragment.whileLoop condition body :=
  ((List.suffix_cons _ body).trans (List.suffix_append ..)).isInfix.trans (List.prefix_append ..).isInfix

theorem Fragment.infix_guarded (body : List Instruction) (binding : Option String) (handler : List Instruction) :
    body <:+: Fragment.guarded body binding handler ∧ handler <:+: Fragment.guarded body binding handler := by
  have behind : handler <:+ Instruction.leaveTry :: .branch .always (.relative (handler.length + 2)) ::
      .caught binding :: handler :=
    ((List.suffix_cons ..).trans (List.suffix_cons ..)).trans (List.suffix_cons ..)
  exact ⟨(List.suffix_cons _ body).isInfix.trans (List.prefix_append ..).isInfix,
    (behind.trans (List.suffix_append ..)).isInfix⟩

theorem Fragment.infix_forLoop (n : Nat) (place : Position) (name : String) (namePlace : Position)
    (items body : List Instruction) : body <:+: Fragment.forLoop n place name namePlace items body := by
  rw [forLoop_eq]
  refine .trans ?_ (((List.suffix_append ..).trans (List.suffix_append ..)).trans (List.suffix_append ..)).isInfix
  exact ((List.prefix_append ..).isInfix.trans (List.suffix_append ..).isInfix).trans
    ((infix_whileLoop ..).trans (infix_skipIf ..))

mutual

theorem Stmt.forLoops_isPartOf (o : LoweringOptions) (ν : Numbering) (s : Stmt) :
    ∀ ℓ ∈ s.forLoops ν, ℓ.IsPartOf o (s.emit o ν) s.names s.calls := by
  cases s with
  | eval | assign | ret | define => simp [Stmt.forLoops]
  | branch line condition body otherwise =>
    have marked := (List.suffix_append (o.emitMark ν ⟨line, line⟩) (Fragment.conditional condition.emit
      (emitBlock o ν.mark body) (otherwise.emit o (blockAfter ν.mark body)))).isInfix
    obtain ⟨first, others⟩ := Fragment.infix_conditional condition.emit (emitBlock o ν.mark body)
      (otherwise.emit o (blockAfter ν.mark body))
    refine List.forall_mem_append.mpr ⟨fun ℓ among => ?_, fun ℓ among => ?_⟩
    · exact (blockForLoops_isPartOf o ν.mark body ℓ among).mono (first.trans marked) (by simp +contextual [Stmt.names])
        (by simp +contextual [Stmt.calls])
    · obtain ⟨is, emitted, part⟩ := otherwise.forLoops_isPartOf o (blockAfter ν.mark body) ℓ among
      exact part.mono ((others is emitted).trans marked) (by simp +contextual [Stmt.names])
        (by simp +contextual [Stmt.calls])
  | whileLoop line condition body =>
    have inside := (Fragment.infix_whileLoop condition.emit (emitBlock o ν.mark body)).trans
      (List.suffix_append (o.emitMark ν ⟨line, line⟩) _).isInfix
    exact fun ℓ among => (blockForLoops_isPartOf o ν.mark body ℓ among).mono inside (by simp +contextual [Stmt.names])
      (by simp +contextual [Stmt.calls])
  | forLoop place name namePlace items body =>
    have marked := (List.suffix_append (o.emitMark ν ⟨place.line, place.line⟩) (Fragment.forLoop ν.loops place name
      namePlace items.emit (emitBlock o ν.mark.loop body))).isInfix
    refine List.forall_mem_cons.mpr ⟨⟨marked, by simp +contextual [Stmt.names], fun _ => id⟩, fun ℓ among => ?_⟩
    exact (blockForLoops_isPartOf o ν.mark.loop body ℓ among).mono ((Fragment.infix_forLoop ..).trans marked)
      (by simp +contextual [Stmt.names]) (by simp +contextual [Stmt.calls])
  | guarded line body binding handler =>
    have marked := (List.suffix_append (o.emitMark ν ⟨line, line⟩) (Fragment.guarded (emitBlock o ν.mark body) binding
      (emitBlock o (blockAfter ν.mark body) handler))).isInfix
    obtain ⟨first, second⟩ := Fragment.infix_guarded (emitBlock o ν.mark body) binding
      (emitBlock o (blockAfter ν.mark body) handler)
    refine List.forall_mem_append.mpr ⟨fun ℓ among => ?_, fun ℓ among => ?_⟩
    · exact (blockForLoops_isPartOf o ν.mark body ℓ among).mono (first.trans marked) (by simp +contextual [Stmt.names])
        (by simp +contextual [Stmt.calls])
    · exact (blockForLoops_isPartOf o _ handler ℓ among).mono (second.trans marked) (by simp +contextual [Stmt.names])
        (by simp +contextual [Stmt.calls])

theorem blockForLoops_isPartOf (o : LoweringOptions) (ν : Numbering) (body : List Stmt) :
    ∀ ℓ ∈ blockForLoops ν body, ℓ.IsPartOf o (emitBlock o ν body) (blockNames body) (blockCalls body) := by
  cases body with
  | nil => simp [blockForLoops]
  | cons s rest =>
    refine List.forall_mem_append.mpr ⟨fun ℓ among => ?_, fun ℓ among => ?_⟩
    · exact (s.forLoops_isPartOf o ν ℓ among).mono (List.prefix_append ..).isInfix
        (fun _ here => List.mem_append_left _ here) fun _ here => List.mem_append_left _ here
    · exact (blockForLoops_isPartOf o _ rest ℓ among).mono (List.suffix_append ..).isInfix
        (fun _ here => List.mem_append_right _ here) fun _ here => List.mem_append_right _ here

theorem Otherwise.forLoops_isPartOf (o : LoweringOptions) (ν : Numbering) (otherwise : Otherwise) :
    ∀ ℓ ∈ otherwise.forLoops ν, ∃ is, otherwise.emit o ν = some is ∧
      ℓ.IsPartOf o is otherwise.names otherwise.calls := by
  cases otherwise with
  | nothing => simp [Otherwise.forLoops]
  | block body => exact fun ℓ among => ⟨_, rfl, blockForLoops_isPartOf o ν body ℓ among⟩
  | branch condition body otherwise =>
    obtain ⟨first, others⟩ := Fragment.infix_conditional condition.emit (emitBlock o ν body)
      (otherwise.emit o (blockAfter ν body))
    refine List.forall_mem_append.mpr ⟨fun ℓ among => ⟨_, rfl, ?_⟩, fun ℓ among => ⟨_, rfl, ?_⟩⟩
    · exact (blockForLoops_isPartOf o ν body ℓ among).mono first (by simp +contextual [Otherwise.names])
        (by simp +contextual [Otherwise.calls])
    · obtain ⟨is, emitted, part⟩ := otherwise.forLoops_isPartOf o (blockAfter ν body) ℓ among
      exact part.mono (others is emitted) (by simp +contextual [Otherwise.names])
        (by simp +contextual [Otherwise.calls])

end

end

/-- The names that a stretch of a body reads and binds. -/
def Piece.names : Piece → List String
  | .block _ body => blockNames body
  | .field _ _ _ _ _ value => value.names

/-- The compiler has made up no name in a definition. -/
def Definition.IsPlain (d : Definition) : Prop := ∀ p ∈ d.body, AllPlain p.names

theorem Definition.isPlain_block {name : String} {params : List ParamTree} {owner : Option ClassId} {line : Nat}
    {ν : Numbering} {body : List Stmt} (plain : AllPlain (blockNames body)) :
    (⟨name, params, owner, line, [.block ν body]⟩ : Definition).IsPlain :=
  List.forall_mem_singleton.mpr plain

mutual

theorem Stmt.definitions_isPlain (ν : Numbering) (s : Stmt) (plain : AllPlain s.names) :
    ∀ d ∈ s.definitions ν, d.IsPlain := by
  cases s with
  | eval | assign | ret => exact List.forall_mem_nil _
  | branch line condition body otherwise =>
    obtain ⟨⟨_, bodies⟩, rests⟩ := ((allPlain_append _ _).mp plain).imp_left (allPlain_append _ _).mp
    exact List.forall_mem_append.mpr
      ⟨blockDefinitions_isPlain _ body bodies, otherwise.definitions_isPlain _ rests⟩
  | whileLoop line condition body => exact blockDefinitions_isPlain _ body ((allPlain_append _ _).mp plain).2
  | forLoop place name namePlace items body =>
    exact blockDefinitions_isPlain _ body ((allPlain_append _ _).mp plain).2
  | guarded line body binding handler =>
    obtain ⟨⟨bodies, _⟩, handlers⟩ := ((allPlain_append _ _).mp plain).imp_left (allPlain_append _ _).mp
    exact List.forall_mem_append.mpr
      ⟨blockDefinitions_isPlain _ body bodies, blockDefinitions_isPlain _ handler handlers⟩
  | define place name params body =>
    obtain ⟨_, bodies⟩ := (allPlain_cons _ _).mp plain
    exact List.forall_mem_append.mpr
      ⟨blockDefinitions_isPlain _ body bodies, List.forall_mem_singleton.mpr (Definition.isPlain_block bodies)⟩

theorem blockDefinitions_isPlain (ν : Numbering) (body : List Stmt) (plain : AllPlain (blockNames body)) :
    ∀ d ∈ blockDefinitions ν body, d.IsPlain := by
  cases body with
  | nil => exact List.forall_mem_nil _
  | cons s rest =>
    obtain ⟨here, others⟩ := (allPlain_append _ _).mp plain
    exact List.forall_mem_append.mpr ⟨s.definitions_isPlain ν here, blockDefinitions_isPlain _ rest others⟩

theorem Otherwise.definitions_isPlain (ν : Numbering) (otherwise : Otherwise) (plain : AllPlain otherwise.names) :
    ∀ d ∈ otherwise.definitions ν, d.IsPlain := by
  cases otherwise with
  | nothing => exact List.forall_mem_nil _
  | block body => exact blockDefinitions_isPlain ν body plain
  | branch condition body otherwise =>
    obtain ⟨⟨_, bodies⟩, rests⟩ := ((allPlain_append _ _).mp plain).imp_left (allPlain_append _ _).mp
    exact List.forall_mem_append.mpr
      ⟨blockDefinitions_isPlain _ body bodies, otherwise.definitions_isPlain _ rests⟩

end

theorem FunctionTree.definitions_isPlain (f : FunctionTree) (name : String) (owner : Option ClassId) (ν : Numbering)
    (plain : AllPlain (blockNames f.body)) : ∀ d ∈ f.definitions name owner ν, d.IsPlain :=
  List.forall_mem_append.mpr ⟨blockDefinitions_isPlain ν f.body plain,
    List.forall_mem_singleton.mpr (Definition.isPlain_block plain)⟩

/-- The compiler has made up no name in the members of a class so far. -/
structure MemberSummary.IsPlain (s : MemberSummary) : Prop where
  definitions : ∀ d ∈ s.definitions, d.IsPlain
  fields : ∀ p ∈ s.fields, AllPlain p.names

theorem MemberSummary.IsPlain.add {s : MemberSummary} (before : s.IsPlain) (className : String) (owner : ClassId)
    (t : MemberTree) (plain : AllPlain t.names) : (s.add className owner t).IsPlain := by
  cases t with
  | method f | staticMethod f =>
    exact ⟨List.forall_mem_append.mpr ⟨before.definitions, f.definitions_isPlain _ _ _ plain⟩,
      List.forall_mem_append.mpr ⟨before.fields, List.forall_mem_nil _⟩⟩
  | staticField lines field place value =>
    exact ⟨List.forall_mem_append.mpr ⟨before.definitions, List.forall_mem_nil _⟩,
      List.forall_mem_append.mpr ⟨before.fields, List.forall_mem_singleton.mpr plain⟩⟩

theorem ClassTree.definitions_isPlain (c : ClassTree) (program : ProgramId) (ν : Numbering) (plain : AllPlain c.names) :
    ∀ d ∈ c.definitions program ν, d.IsPlain := by
  have fold (members : List MemberTree) (s : MemberSummary) (before : s.IsPlain)
      (each : ∀ t ∈ members, AllPlain t.names) :
      (members.foldl (MemberSummary.add c.name (id program ν)) s).IsPlain := by
    induction members generalizing s with
    | nil => exact before
    | cons t rest ih =>
      obtain ⟨here, others⟩ := List.forall_mem_cons.mp each
      exact ih _ (before.add _ _ t here) others
  have summary : (c.summary program ν).IsPlain :=
    fold c.members _ ⟨List.forall_mem_nil _, List.forall_mem_nil _⟩ ((allPlain_flatMap _ _).mp plain)
  refine List.forall_mem_append.mpr ⟨summary.definitions, fun d member => ?_⟩
  unfold ClassTree.setup at member
  split at member
  · cases member
  · rw [List.mem_singleton.mp member]
    exact summary.fields

/-- The compiler has made up no name in the items of a module so far. -/
structure ItemSummary.IsPlain (s : ItemSummary) : Prop where
  definitions : ∀ d ∈ s.definitions, d.IsPlain
  body : ∀ p ∈ s.body, AllPlain p.names

theorem ItemSummary.IsPlain.add {s : ItemSummary} (before : s.IsPlain) (program : ProgramId) (item : Item)
    (plain : AllPlain item.names) : (s.add program item).IsPlain := by
  cases item with
  | function f =>
    have bodies := ((allPlain_cons _ _).mp plain).2
    exact ⟨List.forall_mem_append.mpr ⟨before.definitions, f.definitions_isPlain _ _ _ bodies⟩, before.body⟩
  | classDef c =>
    have members := ((allPlain_cons _ _).mp plain).2
    exact ⟨List.forall_mem_append.mpr ⟨before.definitions, c.definitions_isPlain _ _ members⟩, before.body⟩
  | statement t =>
    have alone : AllPlain (Piece.block s.after [t]).names := (allPlain_blockNames _).mpr
      (List.forall_mem_singleton.mpr plain)
    exact ⟨List.forall_mem_append.mpr ⟨before.definitions, t.definitions_isPlain _ plain⟩,
      List.forall_mem_append.mpr ⟨before.body, List.forall_mem_singleton.mpr alone⟩⟩

theorem ModuleTree.definitions_isPlain (t : ModuleTree) (program : ProgramId) (plain : AllPlain t.names) :
    ∀ d ∈ t.definitions program, d.IsPlain := by
  have fold (items : List Item) (s : ItemSummary) (before : s.IsPlain) (each : ∀ item ∈ items, AllPlain item.names) :
      (items.foldl (ItemSummary.add program) s).IsPlain := by
    induction items generalizing s with
    | nil => exact before
    | cons item rest ih =>
      obtain ⟨here, others⟩ := List.forall_mem_cons.mp each
      exact ih _ (before.add program item here) others
  have summary : (t.summary program).IsPlain :=
    fold t.items _ ⟨List.forall_mem_nil _, List.forall_mem_nil _⟩ ((allPlain_flatMap _ _).mp plain)
  exact List.forall_mem_append.mpr ⟨summary.definitions, List.forall_mem_singleton.mpr summary.body⟩

theorem Piece.forLoops_isPartOf (o : LoweringOptions) (p : Piece) :
    ∀ ℓ ∈ p.forLoops, ℓ.IsPartOf o (p.emit o) p.names p.calls := by
  cases p with
  | block ν body => exact blockForLoops_isPartOf o ν body
  | field => exact List.forall_mem_nil _

theorem Piece.infix_emitPieces (o : LoweringOptions) {p : Piece} {body : List Piece} (among : p ∈ body) :
    p.emit o <:+: emitPieces o body := by
  obtain ⟨before, after, rfl⟩ := List.append_of_mem among
  exact ⟨emitPieces o before, emitPieces o after, by simp [emitPieces]⟩

/-- What is known of a loop of a module that does not assign by a call: its code is part of that of its procedure, the
compiler has made up neither the name of its variable nor a name in its body, and it has no calls that assign. -/
theorem ModuleTree.forLoop_known {source : String} {o : LoweringOptions} {t : ModuleTree}
    (parsed : ModuleTree.ofSource source = .ok t) (none : ∀ c ∈ t.calls, ¬ c.Assigns) {d : Definition}
    (member : d ∈ t.definitions o.program) {ℓ : ForLoop} (among : ℓ ∈ d.forLoops) :
    (∃ lo, Segment (d.procedure o).code lo (ℓ.emit o)) ∧ AllPlain (ℓ.name :: blockNames ℓ.body) ∧
      Admits o.program Instruction.IsNoAssignment (ℓ.items.calls ++ blockCalls ℓ.body) := by
  obtain ⟨p, piece, here⟩ := List.mem_flatMap.mp among
  have part := p.forLoops_isPartOf o ℓ here
  have plain := t.definitions_isPlain o.program (ModuleTree.ofSource_plain parsed) d member p piece
  have tagged := ModuleTree.ofSource_gives source
  rw [parsed] at tagged
  obtain ⟨before, after, whole⟩ := part.code.trans (Piece.infix_emitPieces o piece)
  refine ⟨⟨before.length, before, after, whole.symm, rfl⟩, fun name named => plain name (part.names name named), ?_⟩
  refine (admits_isNoAssignment tagged none).mono fun c called => ?_
  exact (t.definitions_within o.program d member).spells c (List.mem_flatMap.mpr ⟨p, piece, part.calls c called⟩)

end ScriptEngine
