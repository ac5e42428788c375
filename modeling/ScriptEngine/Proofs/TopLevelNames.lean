import Mathlib.Data.List.Pairwise
import ScriptEngine.Proofs.Language

/-! # Names of the top level

Code outside of functions binds a name in five ways, and the parser takes note of two of them: of the functions of the
top level and of assignments to variables, however deep in blocks they stand. These names and those of the classes are
distinct. Loop variables, the names that handlers give to messages, and functions that are defined in blocks are not
compared with the names of classes.
-/

namespace ScriptEngine

def Target.assigned : Target → List String
  | .variable name _ => [name]
  | .member .. | .index .. => []

mutual

/-- The variables that a statement assigns outside of the functions that it defines. -/
def Stmt.assigned : Stmt → List String
  | .assign _ target _ _ => target.assigned
  | .branch _ _ body otherwise => blockAssigned body ++ otherwise.assigned
  | .whileLoop _ _ body | .forLoop _ _ _ _ body => blockAssigned body
  | .guarded _ body _ handler => blockAssigned body ++ blockAssigned handler
  | .eval .. | .ret .. | .define .. => []

def blockAssigned : List Stmt → List String
  | [] => []
  | s :: rest => s.assigned ++ blockAssigned rest

def Otherwise.assigned : Otherwise → List String
  | .nothing => []
  | .block body => blockAssigned body
  | .branch _ body otherwise => blockAssigned body ++ otherwise.assigned

end

mutual

/-- The names that a statement binds otherwise: by loops, handlers and definitions. -/
def Stmt.bound : Stmt → List String
  | .branch _ _ body otherwise => blockBound body ++ otherwise.bound
  | .whileLoop _ _ body => blockBound body
  | .forLoop _ name _ _ body => name :: blockBound body
  | .guarded _ body binding handler => blockBound body ++ binding.toList ++ blockBound handler
  | .define _ name _ _ => [name]
  | .eval .. | .assign .. | .ret .. => []

def blockBound : List Stmt → List String
  | [] => []
  | s :: rest => s.bound ++ blockBound rest

def Otherwise.bound : Otherwise → List String
  | .nothing => []
  | .block body => blockBound body
  | .branch _ body otherwise => blockBound body ++ otherwise.bound

end

namespace Item

/-- The names of functions and variables that the parser takes note of. -/
def noted : Item → List String
  | function f => [f.name]
  | classDef _ => []
  | statement s => s.assigned

def className? : Item → Option String
  | classDef c => some c.name
  | _ => none

def bound : Item → List String
  | statement s => s.bound
  | _ => []

/-- The clauses by which an item declares names. -/
def notes : Item → List Clause
  | function f => [.declares f.name false]
  | classDef c => [.declares c.name true]
  | statement s => s.assigned.map (.declares · false)

end Item

namespace ModuleTree

def noted (m : ModuleTree) : List String := m.items.flatMap Item.noted

def classNames (m : ModuleTree) : List String := m.items.filterMap Item.className?

/-- The names that the code of the top level binds in the other ways. -/
def bound (m : ModuleTree) : List String := m.items.flatMap Item.bound

def notes (m : ModuleTree) : List Clause := m.items.flatMap Item.notes

variable {m : ModuleTree} {name : String}

theorem notes_of_noted (among : name ∈ m.noted) : .declares name false ∈ m.notes := by
  obtain ⟨i, member, here⟩ := List.mem_flatMap.mp among
  refine List.mem_flatMap.mpr ⟨i, member, ?_⟩
  cases i with
  | function f => simpa [Item.noted, Item.notes] using here
  | classDef c => cases here
  | statement s => exact List.mem_map_of_mem here

theorem notes_of_className (among : name ∈ m.classNames) : .declares name true ∈ m.notes := by
  obtain ⟨i, member, here⟩ := List.mem_filterMap.mp among
  refine List.mem_flatMap.mpr ⟨i, member, ?_⟩
  cases i with
  | classDef c =>
    obtain rfl : c.name = name := Option.some.inj here
    exact List.mem_singleton_self _
  | _ => cases here

end ModuleTree

/-- Some names that are declared, and not as those of classes. -/
def AllDeclared (names : List String) (cs : List Clause) : Prop := ∀ name ∈ names, .declares name false ∈ cs

theorem allDeclared_nil (cs : List Clause) : AllDeclared [] cs := List.forall_mem_nil _

theorem AllDeclared.append {names more : List String} {cs ds : List Clause} (first : AllDeclared names cs)
    (second : AllDeclared more ds) : AllDeclared (names ++ more) (cs ++ ds) :=
  List.forall_mem_append.mpr
    ⟨fun name here => List.mem_append_left ds (first name here),
      fun name here => List.mem_append_right cs (second name here)⟩

theorem blockAssigned_concat (body : List Stmt) (s : Stmt) :
    blockAssigned (body ++ [s]) = blockAssigned body ++ s.assigned := by
  induction body with
  | nil => exact List.append_nil _
  | cons t rest ih =>
    change t.assigned ++ blockAssigned (rest ++ [s]) = (t.assigned ++ blockAssigned rest) ++ s.assigned
    rw [ih, List.append_assoc]

namespace Parser

variable {α : Type} {s : ParserState}

/-- What is read declares some of its names. -/
abbrev Declares (names : α → List String) : List Token → List Clause → α → Prop :=
  fun _ cs a => AllDeclared (names a) cs

theorem block_declares {statement : Parser Stmt} (fuel : Nat) (statements : Reads statement (Declares Stmt.assigned)) :
    Reads (block statement fuel) (Declares blockAssigned) := by
  refine (expectSymbol_reads .openBrace).after fun ts _ _ =>
    rounds_reads (I := fun _ cs (before : List Stmt) => AllDeclared (blockAssigned before.reverse) cs) ?_ fuel ts []
      (allDeclared_nil _)
  intro ts cs before declared
  refine (acceptSymbol_reads .closeBrace).after fun us closed read => ?_
  cases read with
  | found => exact .pure (by simpa using declared)
  | other =>
    intro s whole
    refine .look (sees_eq whole _) ?_
    split
    · exact unexpected_reads _ s whole
    · refine statements.bind (fun vs ds stmt here => .pure ?_) s whole
      have both := declared.append here
      rw [← blockAssigned_concat, ← List.reverse_cons] at both
      simpa only [Sum.elim_inl, List.append_nil] using both

theorem otherwise_declares {condition : Parser Expr} {body : Parser (List Stmt)}
    (conditions : Reads condition (Plain fun ts _ => ConditionRule ts)) (bodies : Reads body (Declares blockAssigned))
    (fuel : Nat) : Reads (otherwise condition body fuel) (Declares Otherwise.assigned) := by
  induction fuel with
  | zero => exact unexpected_reads _
  | succ fuel ih =>
    have another : Reads (do
        let c ← condition
        let b ← body
        let rest ← otherwise condition body fuel
        pure (Otherwise.branch c b rest)) (Declares Otherwise.assigned) := by
      refine conditions.after fun _ c _ => bodies.bind fun _ cs b here => ih.bind fun _ ds rest there => .pure ?_
      simpa [Declares, Otherwise.assigned] using here.append there
    refine (acceptWord_reads .elifWord).after fun _ elifWord read => ?_
    split
    · exact another
    refine (acceptWord_reads .elseWord).after fun _ elseWord read => ?_
    split
    · refine (acceptWord_reads .ifWord).after fun _ ifWord read => ?_
      split
      · exact another
      · exact bodies.map fun _ cs b here => by simpa [Declares, Otherwise.assigned] using here
    · exact .pure (by simp [Declares, Otherwise.assigned, allDeclared_nil])

/-- An assignment to a variable declares it. Inside a function this means nothing for the names of the top level. -/
theorem assignment_declares (first : Token) (target : Expr) (place : Position) (fuel : Nat) :
    Reads (assignment first target place fuel) (Declares Stmt.assigned) := by
  refine (expression_reads fuel).after fun us value _ => ?_
  have finish (target' : Target) {cs : List Clause} (declared : AllDeclared target'.assigned cs) : Reads (do
      let semicolon ← expectSymbol .semicolon
      pure (Stmt.assign ⟨first.position.line, semicolon.position.line⟩ target' value place))
      fun _ ds t => AllDeclared t.assigned (cs ++ ds) :=
    (expectSymbol_reads .semicolon).after fun _ _ _ => .pure (by simpa [Stmt.assigned] using declared)
  cases target with
  | «variable» name here =>
    have declared : AllDeclared (Target.variable name here).assigned [.declares name false] :=
      fun other among => by simpa [Target.assigned] using among
    intro s whole
    refine .look (p := get) rfl ?_
    split
    · next outside =>
      refine (declare_readsAt name here outside).bind whole ?_
      rintro _ _ _ ⟨rfl, rfl⟩
      exact finish _ declared
    · next inside =>
      exact .note (c := .declares name false) (fun outside => absurd outside inside)
        (by simp [ParserState.meet, inside]) (finish _ declared s whole)
  | member receiver name here => exact finish (.member receiver name here) (allDeclared_nil [])
  | index receiver key here => exact finish (.index receiver key here) (allDeclared_nil [])
  | _ => exact faultAt_reads _ _

theorem simple_declares (first : Token) (fuel : Nat) : Reads (simple first fuel) (Declares Stmt.assigned) := by
  refine (acceptWord_reads .returnWord).after fun _ returned _ => ?_
  split
  · have finish (value : Option Expr) : Reads (do
        let semicolon ← expectSymbol .semicolon
        pure (Stmt.ret ⟨first.position.line, semicolon.position.line⟩ value)) (Declares Stmt.assigned) :=
      (expectSymbol_reads .semicolon).after fun _ _ _ => .pure (allDeclared_nil _)
    intro s whole
    refine .look (sees_eq whole _) ?_
    split
    · exact finish none s whole
    · exact ((expression_reads fuel).map (S := Plain fun _ _ => True) fun _ _ _ good => ⟨good.1, trivial⟩).after
        (fun _ value _ => finish value) s whole
  · refine (expression_reads fuel).after fun _ e _ => (acceptSymbol_reads .assign).after fun _ sign _ => ?_
    split
    · exact assignment_declares first e _ fuel
    · exact (expectSymbol_reads .semicolon).after fun _ _ _ => .pure (allDeclared_nil _)

theorem forLoop_declares (place : Position) {statement : Parser Stmt} (fuel : Nat)
    (statements : Reads statement (Declares Stmt.assigned)) :
    Reads (forLoop place statement fuel) (Declares Stmt.assigned) := by
  refine (expectSymbol_reads .openParen).after fun _ _ _ => (expect_reads (k := .ident) nofun _).after fun _ name _ =>
    (expectSymbol_reads .colon).after fun _ _ _ => (expression_reads fuel).after fun _ items _ =>
    (expectSymbol_reads .closeParen).after fun _ _ _ => (block_declares fuel statements).bind fun _ cs body here =>
    .pure ?_
  simpa [Declares, Stmt.assigned] using here

theorem guarded_declares (line : Nat) {statement : Parser Stmt} (fuel : Nat)
    (statements : Reads statement (Declares Stmt.assigned)) :
    Reads (guarded line statement fuel) (Declares Stmt.assigned) := by
  refine (block_declares fuel statements).bind fun _ cs body here =>
    (expect_reads (k := .keyword .catchWord) nofun _).after fun _ _ _ => ?_
  have finish (binding : Option String) : Reads (do
      let handler ← block statement fuel
      pure (Stmt.guarded line body binding handler)) fun _ ds t => AllDeclared t.assigned (cs ++ ds) :=
    (block_declares fuel statements).bind fun _ ds handler there => .pure (by
      simpa [Stmt.assigned] using here.append there)
  refine (acceptSymbol_reads .colon).after fun _ colon _ => ?_
  split
  · exact (expect_reads (k := .ident) nofun _).after fun _ name _ => finish (some name.text)
  · exact finish none

theorem statement_declares (fuel : Nat) : Reads (statement fuel) (Declares Stmt.assigned) := by
  induction fuel with
  | zero => exact unexpected_reads _
  | succ fuel ih =>
    have blocks := block_declares fuel ih
    have conditions := condition_reads fuel
    intro s whole
    refine .look (peek_eq whole) ?_
    have word {k : Keyword} (opened : s.next.kind = .keyword k) {p : Token → Parser Stmt}
        (reads : Reads (p s.next) (Declares Stmt.assigned)) : ReadsAt (advance >>= p) (Declares Stmt.assigned) s := by
      have more : s.next.kind ≠ .endOfInput := opened ▸ nofun
      exact .step (advance_eq whole) more (reads _ whole.past_tail)
    dsimp only
    split
    · next opened =>
      refine word opened (conditions.after fun _ c _ => blocks.bind fun _ cs body here =>
        (otherwise_declares conditions blocks fuel).bind fun _ ds rest there => .pure ?_)
      simpa [Declares, Stmt.assigned] using here.append there
    · next opened =>
      refine word opened (conditions.after fun _ c _ => blocks.bind fun _ cs body here => .pure ?_)
      simpa [Declares, Stmt.assigned] using here
    · next opened => exact word opened (forLoop_declares _ fuel ih)
    · next opened => exact word opened (guarded_declares _ fuel ih)
    · next opened =>
      exact word opened ((function_reads _ fuel (statement_reads fuel)).bind fun _ cs f _ =>
        .pure (allDeclared_nil _))
    · exact faultAt_reads _ _ s whole
    · exact simple_declares _ fuel s whole

theorem item_notes (fuel : Nat) (whole : s.IsWhole) (outside : s.depth = 0) :
    ReadsAt (item fuel) (fun _ cs i => ∀ c ∈ i.notes, c ∈ cs) s := by
  refine .accept whole nofun (fun opened => ?_) fun _ => ?_
  · have whole := whole.past_tail
    refine (function_reads _ fuel (statement_reads fuel) _ whole).seq fun ts cs f rest tokens _ => ?_
    -- The name is declared behind the body, whose clauses leave the depth as it was.
    have whole := whole.onward rest cs tokens
    have outside : (((s.past s.cursor.tokens.tail).meetAll cs).past rest).depth = 0 :=
      ParserState.meetAll_depth.trans outside
    refine (declare_readsAt _ _ outside).bind whole ?_
    rintro _ _ _ ⟨rfl, rfl⟩
    exact .pure (by simp [Item.notes])
  · refine .accept whole nofun (fun opened => ?_) fun _ => ?_
    · have whole := whole.past_tail
      exact (classDef_readsAt _ fuel opened whole outside).seq fun ts cs c rest tokens good =>
        Reads.pure (by simpa [Item.notes] using good.2) _ (whole.onward rest _ tokens)
    · refine (statement_declares fuel s whole).seq fun ts cs t rest tokens declared =>
        Reads.pure ?_ _ (whole.onward rest _ tokens)
      intro c among
      obtain ⟨name, here, rfl⟩ := List.mem_map.mp among
      simpa using declared name here

theorem module_notes (fuel : Nat) (whole : s.IsWhole) (outside : s.depth = 0) :
    ReadsAt (module fuel) (fun _ cs m => ∀ c ∈ m.notes, c ∈ cs) s := by
  refine (@rounds_readsAt _ _ s (fun _ cs items => ∀ c ∈ items.flatMap Item.notes, c ∈ cs) _
    (fun _ cs (before : List Item) => ∀ c ∈ before.reverse.flatMap Item.notes, c ∈ cs) (fun s => s.depth = 0)
    (fun outside => ParserState.meetAll_depth.trans outside) ?_ fuel [] [] [] whole outside
    (List.forall_mem_nil _)).seq fun ts cs items rest tokens noted => ?_
  · intro ts cs before s whole outside noted
    refine .look (sees_eq whole _) ?_
    split
    · exact Reads.pure (by simpa using noted) s whole
    · refine (item_notes fuel whole outside).bind whole fun us ds i here => .pure ?_
      have both : ∀ c ∈ (i :: before).reverse.flatMap Item.notes, c ∈ cs ++ ds := by
        rw [List.reverse_cons, List.flatMap_append, List.flatMap_singleton]
        exact List.forall_mem_append.mpr ⟨fun c among => List.mem_append_left ds (noted c among),
          fun c among => List.mem_append_right cs (here c among)⟩
      simpa only [Sum.elim_inl, List.append_nil] using both
  · have whole := whole.onward rest cs tokens
    exact .look (peek_eq whole) (Reads.pure (by simpa [ModuleTree.notes] using noted) _ whole)

end Parser

instance : Std.Symm fun c d : Clause => ¬c.Clashes d where
  symm c d apart clash := by
    cases c with
    | declares name isClass =>
      cases d with
      | declares name' isClass' => exact apart ⟨clash.1.symm, clash.2.symm⟩
      | _ => exact clash
    | _ => cases d <;> exact clash

/-- The class that a clause declares. -/
def Clause.className? : Clause → Option String
  | .declares name true => some name
  | _ => none

theorem Clause.className?_eq_some_iff {c : Clause} {name : String} :
    c.className? = some name ↔ c = .declares name true := by
  unfold className?
  split <;> simp_all

namespace ModuleTree

variable {source : String} {m : ModuleTree}

theorem classNames_eq (m : ModuleTree) : m.classNames = m.declarations.filterMap Clause.className? := by
  unfold classNames declarations
  induction m.items with
  | nil => rfl
  | cons i rest ih =>
    rw [List.flatMap_cons, List.filterMap_append, ← ih]
    cases i <;> rfl

/-- No two clauses of which one is that of a class declare the same name. -/
theorem ofSource_notes (parsed : ofSource source = .ok m) :
    ∃ cs : List Clause, (∀ c ∈ m.notes, c ∈ cs) ∧ cs.Pairwise fun c d => ¬c.Clashes d := by
  have whole := ParserState.ofStream_isWhole (ofSource_clean parsed)
  obtain ⟨s, read⟩ := ofSource_eq_ok_iff.mp parsed
  obtain ⟨_, cs, _, _, noted, permits, _⟩ := Parser.module_notes _ whole rfl m s read
  exact ⟨cs, noted, ((ParserState.ofStream_permitsAll _ cs).mp permits).2⟩

/-- Classes have names of their own: no two classes share one, and neither do a class and a function of the top level or
a variable that code of the top level assigns. -/
theorem ofSource_classNames (parsed : ofSource source = .ok m) :
    m.classNames.Nodup ∧ ∀ name ∈ m.classNames, name ∉ m.noted := by
  constructor
  · rw [classNames_eq]
    refine (ofSource_declarations parsed).filterMap _ fun c d apart name here name' there => ?_
    obtain rfl := Clause.className?_eq_some_iff.mp here
    obtain rfl := Clause.className?_eq_some_iff.mp there
    exact fun same => apart ⟨same, .inl rfl⟩
  · intro name isClass noted
    obtain ⟨cs, among, apart⟩ := ofSource_notes parsed
    exact apart.forall (among _ (notes_of_className isClass)) (among _ (notes_of_noted noted)) nofun ⟨rfl, .inl rfl⟩

end ModuleTree

end ScriptEngine
