import ScriptEngine.Instruction
import ScriptEngine.Proofs.Spelling
import ScriptEngine.Proofs.Tiling

/-! # What parsing gives

Three facts about every source text, by one invariant of the parser. Each call of a parsed tree has one tag
for each argument; no name in it is one that the compiler makes up; and a fault is the one that the tokens end
with, or it stands where a token does that its cause is about. So no fault is that of a slot left open, which only
compiling could report.
-/

namespace ScriptEngine

/-- A fault that is found in the text, not one of compiling. -/
def Fault.InText (f : Fault) : Prop := ∀ n, f.cause ≠ .unresolvedPlaceholder n

/-- Each call of a list has one tag for each argument. -/
def AllTagged (calls : List SpelledCall) : Prop := ∀ c ∈ calls, c.IsTagged

@[simp] theorem allTagged_nil : AllTagged [] := by simp [AllTagged]

@[simp] theorem allTagged_append (a b : List SpelledCall) :
    AllTagged (a ++ b) ↔ AllTagged a ∧ AllTagged b := by
  simp [AllTagged, or_imp, forall_and]

@[simp] theorem allTagged_cons (c : SpelledCall) (rest : List SpelledCall) :
    AllTagged (c :: rest) ↔ c.IsTagged ∧ AllTagged rest := by
  simp [AllTagged]

theorem allTagged_callsAll (es : List Expr) :
    AllTagged (callsAll es) ↔ ∀ e ∈ es, AllTagged e.calls := by
  induction es with
  | nil => simp [callsAll]
  | cons e rest ih => simp [callsAll, ih]

theorem allTagged_blockCalls (body : List Stmt) :
    AllTagged (blockCalls body) ↔ ∀ s ∈ body, AllTagged s.calls := by
  induction body with
  | nil => simp [blockCalls]
  | cons s rest ih => simp [blockCalls, ih]

theorem allTagged_flatMap {α : Type} (calls : α → List SpelledCall) (as : List α) :
    AllTagged (as.flatMap calls) ↔ ∀ a ∈ as, AllTagged (calls a) := by
  induction as with
  | nil => simp
  | cons a rest ih => simp [ih]

/-- Names that the compiler does not make up. -/
def AllPlain (names : List String) : Prop := ∀ name ∈ names, isHidden name = false

@[simp] theorem allPlain_nil : AllPlain [] := by simp [AllPlain]

@[simp] theorem allPlain_append (a b : List String) : AllPlain (a ++ b) ↔ AllPlain a ∧ AllPlain b := by
  simp [AllPlain, or_imp, forall_and]

@[simp] theorem allPlain_cons (name : String) (rest : List String) :
    AllPlain (name :: rest) ↔ isHidden name = false ∧ AllPlain rest := by
  simp [AllPlain]

theorem allPlain_namesAll (es : List Expr) : AllPlain (namesAll es) ↔ ∀ e ∈ es, AllPlain e.names := by
  induction es with
  | nil => simp [namesAll]
  | cons e rest ih => simp [namesAll, ih]

theorem allPlain_blockNames (body : List Stmt) : AllPlain (blockNames body) ↔ ∀ s ∈ body, AllPlain s.names := by
  induction body with
  | nil => simp [blockNames]
  | cons s rest ih => simp [blockNames, ih]

theorem allPlain_flatMap {α : Type} (names : α → List String) (as : List α) :
    AllPlain (as.flatMap names) ↔ ∀ a ∈ as, AllPlain (names a) := by
  induction as with
  | nil => simp
  | cons a rest ih => simp [ih]

/-- What a tree spells: calls with one tag for each argument, and names that the compiler does not make up. -/
structure Spells (calls : List SpelledCall) (names : List String) : Prop where
  tagged : AllTagged calls
  plain : AllPlain names

theorem spells_nil : Spells [] [] := ⟨allTagged_nil, allPlain_nil⟩

theorem Spells.append {calls more : List SpelledCall} {names others : List String} (first : Spells calls names)
    (second : Spells more others) : Spells (calls ++ more) (names ++ others) :=
  ⟨(allTagged_append _ _).mpr ⟨first.tagged, second.tagged⟩, (allPlain_append _ _).mpr ⟨first.plain, second.plain⟩⟩

theorem Spells.call {calls : List SpelledCall} {names : List String} (spells : Spells calls names) {c : SpelledCall}
    (tagged : c.IsTagged) : Spells (calls ++ [c]) names :=
  ⟨(allTagged_append _ _).mpr ⟨spells.tagged, by simpa using tagged⟩, spells.plain⟩

theorem Spells.name {calls : List SpelledCall} {names : List String} (spells : Spells calls names) {name : String}
    (plain : isHidden name = false) : Spells calls (name :: names) :=
  ⟨spells.tagged, (allPlain_cons _ _).mpr ⟨plain, spells.plain⟩⟩

theorem spells_all {es : List Expr} (each : ∀ e ∈ es, Spells e.calls e.names) : Spells (callsAll es) (namesAll es) :=
  ⟨(allTagged_callsAll es).mpr fun e among => (each e among).tagged,
    (allPlain_namesAll es).mpr fun e among => (each e among).plain⟩

theorem spells_block {body : List Stmt} (each : ∀ s ∈ body, Spells s.calls s.names) :
    Spells (blockCalls body) (blockNames body) :=
  ⟨(allTagged_blockCalls body).mpr fun s among => (each s among).tagged,
    (allPlain_blockNames body).mpr fun s among => (each s among).plain⟩

theorem spells_flatMap {α : Type} {calls : α → List SpelledCall} {names : α → List String} {as : List α}
    (each : ∀ a ∈ as, Spells (calls a) (names a)) : Spells (as.flatMap calls) (as.flatMap names) :=
  ⟨(allTagged_flatMap _ _).mpr fun a among => (each a among).tagged,
    (allPlain_flatMap _ _).mpr fun a among => (each a among).plain⟩

/-- A name is not one that the compiler makes up, as no word holds its mark. -/
def Token.IsPlain (t : Token) : Prop := t.kind = .ident → isHidden t.text = false

namespace Lexer

theorem next_fault {s : State} {fault : Fault} (failed : next s = .error fault) : fault.InText := by
  intro n same
  rcases next_error failed with skipped | ⟨p, c, cs, -, read⟩
  · rcases skip_error skipped with ⟨_, _, _, rfl⟩ | ⟨_, _, _, _, _, rfl⟩ <;> cases same
  · have begins := (token_error read).2
    rw [same] at begins
    exact begins

/-- The fault that ends the tokens is one of reading a token. -/
theorem collect_failed (fuel : Nat) {s : State} {fault : Fault} (failed : (collect fuel s).2 = some fault) :
    ∃ s', next s' = .error fault := by
  induction fuel generalizing s with
  | zero => cases failed
  | succ fuel ih =>
    unfold collect at failed
    split at failed
    · next f read =>
      cases failed
      exact ⟨s, read⟩
    · cases failed
    · exact ih failed

theorem token_isPlain {afterOperand : Bool} {p : Position} {c : Char} {rest : List Char} {t : Token} {s : State}
    (read : token afterOperand p c rest = .ok (t, s)) : t.IsPlain := by
  obtain ⟨text, rest, kind, literal, -, lexeme, same⟩ := token_ok read
  obtain ⟨rfl, rfl⟩ := Prod.mk.inj same
  cases lexeme with
  | ident starts run free =>
    intro _
    rw [isHidden, String.toList_ofList, Bool.eq_false_iff]
    intro marked
    exact absurd (run _ (List.contains_iff_mem.mp marked)) (by decide)
  | _ => exact nofun

theorem collect_isPlain (fuel : Nat) (s : State) : ∀ t ∈ (collect fuel s).1, t.IsPlain := by
  induction fuel generalizing s with
  | zero => exact List.forall_mem_nil _
  | succ fuel ih =>
    unfold collect
    split
    · exact List.forall_mem_nil _
    · exact List.forall_mem_nil _
    · next read =>
      obtain ⟨_, _, _, -, here⟩ := next_some read
      exact List.forall_mem_cons.mpr ⟨token_isPlain here, ih _⟩

end Lexer

/-- What a cause says of a token. -/
def SyntaxError.IsAbout : SyntaxError → Token → Prop
  | .unexpectedToken _ found, t => found = t.describe
  | .invalidAssignmentTarget, t => t.kind = .symbol .assign
  | .duplicateParameter name, t => t.kind = .ident ∧ t.text = name
  | .nonLiteralDefault _, t => t.literal = none
  | .classShadowsName name, t => t.kind = .ident ∧ t.text = name ∨ t.kind = .keyword .defWord
  | .staticOutsideClass, t => t.kind = .keyword .staticWord
  | _, _ => False

namespace TokenStream

/-- The token that stands for the end of the text. -/
def endToken (stream : TokenStream) : Token := (Cursor.ofStream stream).endToken

/-- A token that parsing can come upon: one of the text, or its end if no fault comes before. -/
inductive Shows (stream : TokenStream) : Token → Prop
  | token {t : Token} (among : t ∈ stream.tokens) : Shows stream t
  | ending (whole : stream.failure = none) : Shows stream stream.endToken

/-- A fault that parsing can end with: that of the text, or one that stands where a token does and is about it. -/
inductive Blames (stream : TokenStream) : Fault → Prop
  | text {fault : Fault} (failed : stream.failure = some fault) : Blames stream fault
  | token {t : Token} {cause : SyntaxError} (shown : stream.Shows t) (about : cause.IsAbout t) :
    Blames stream ⟨t.position, cause⟩

/-- A variable stands where a name does. -/
def Names (stream : TokenStream) (e : Expr) : Prop :=
  ∀ name place, e = .variable name place →
    ∃ t, stream.Shows t ∧ t.kind = .ident ∧ t.text = name ∧ t.position = place

end TokenStream

/-- A cursor over what is left of a text, in which no name holds the mark. -/
structure Cursor.Lexed (stream : TokenStream) (c : Cursor) : Prop where
  tokens : c.tokens <:+ stream.tokens
  failure : c.failure = stream.failure
  stop : c.endToken = stream.endToken
  plain : ∀ t ∈ stream.tokens, t.IsPlain

namespace Parser

variable {stream : TokenStream} {α β σ : Type} {P : α → Prop} {Q : β → Prop}

/-- A step of parsing that only reads on, only gives results with a property, and only faults of the text. -/
def Gives (stream : TokenStream) (p : Parser α) (P : α → Prop) : Prop :=
  ∀ s : ParserState, s.cursor.Lexed stream →
    match p s with
    | .ok (a, s') => P a ∧ s'.cursor.Lexed stream
    | .error fault => stream.Blames fault

theorem Gives.pure {a : α} (h : P a) : Gives stream (pure a) P := fun _ lexed => ⟨h, lexed⟩

theorem Gives.bind {p : Parser α} {f : α → Parser β} (first : Gives stream p P)
    (second : ∀ a, P a → Gives stream (f a) Q) : Gives stream (p >>= f) Q := by
  intro s lexed
  have here := first s lexed
  change match (p s >>= fun r => f r.1 r.2) with
    | .ok (a, s') => Q a ∧ s'.cursor.Lexed stream
    | .error fault => stream.Blames fault
  cases read : p s with
  | error fault =>
    rw [read] at here
    exact here
  | ok result =>
    rw [read] at here
    exact second result.1 here.1 result.2 here.2

theorem Gives.map {p : Parser α} {f : α → β} (first : Gives stream p P) (h : ∀ a, P a → Q (f a)) :
    Gives stream (f <$> p) Q :=
  first.bind fun a good => .pure (h a good)

theorem Gives.mono {R : α → Prop} {p : Parser α} (given : Gives stream p P) (h : ∀ a, P a → R a) :
    Gives stream p R := by
  intro s lexed
  have here := given s lexed
  cases read : p s with
  | error fault =>
    rw [read] at here
    exact here
  | ok result =>
    rw [read] at here
    exact ⟨h _ here.1, here.2⟩

/-- A step of which only its faults matter. -/
abbrev Safe (stream : TokenStream) (p : Parser α) : Prop := Gives stream p fun _ => True

theorem Gives.safe {p : Parser α} (given : Gives stream p P) : Safe stream p := given.mono fun _ _ => trivial

theorem get_safe : Safe stream (get : Parser ParserState) := fun _ lexed => ⟨trivial, lexed⟩

theorem modify_safe {f : ParserState → ParserState} (same : ∀ s, (f s).cursor = s.cursor) :
    Safe stream (modify f : Parser Unit) := by
  intro s lexed
  refine ⟨trivial, ?_⟩
  rw [same s]
  exact lexed

theorem faultAt_gives {place : Position} {cause : SyntaxError} (blamed : stream.Blames ⟨place, cause⟩) :
    Gives stream (faultAt place cause : Parser α) P :=
  fun _ _ => blamed

/-- A token that parsing comes upon. -/
structure Meets (stream : TokenStream) (t : Token) : Prop where
  shown : stream.Shows t
  plain : t.IsPlain

/-- What comes of looking at the tokens. -/
def Looks (stream : TokenStream) : Except Fault Token → Prop
  | .ok t => Meets stream t
  | .error fault => stream.Blames fault

theorem atStop_looks {c : Cursor} (lexed : c.Lexed stream) : Looks stream c.atStop := by
  unfold Cursor.atStop
  cases failed : c.failure with
  | some fault => exact .text (lexed.failure ▸ failed)
  | none =>
    refine ⟨?_, nofun⟩
    rw [lexed.stop]
    exact .ending (lexed.failure ▸ failed)

theorem token_looks {c : Cursor} {t : Token} (lexed : c.Lexed stream) (among : t ∈ c.tokens) : Meets stream t :=
  ⟨.token (lexed.tokens.subset among), lexed.plain t (lexed.tokens.subset among)⟩

theorem peek_looks {c : Cursor} (lexed : c.Lexed stream) : Looks stream c.peek := by
  unfold Cursor.peek
  split
  · next read => exact token_looks lexed (read ▸ List.mem_cons_self)
  · exact atStop_looks lexed

theorem peekSecond_looks {c : Cursor} (lexed : c.Lexed stream) : Looks stream c.peekSecond := by
  unfold Cursor.peekSecond
  split
  · next read => exact token_looks lexed (read ▸ List.mem_cons_of_mem _ List.mem_cons_self)
  · exact atStop_looks lexed

theorem tail_lexed {c : Cursor} (lexed : c.Lexed stream) : Cursor.Lexed stream { c with tokens := c.tokens.tail } :=
  ⟨(List.tail_suffix _).trans lexed.tokens, lexed.failure, lexed.stop, lexed.plain⟩

theorem peek_gives : Gives stream peek (Meets stream) := by
  intro s lexed
  have looks := peek_looks lexed
  have run : peek s = s.cursor.peek >>= fun t => .ok (t, s) := rfl
  rw [run]
  cases read : s.cursor.peek with
  | error fault =>
    rw [read] at looks
    exact looks
  | ok t =>
    rw [read] at looks
    exact ⟨looks, lexed⟩

theorem peekSecond_safe : Safe stream peekSecond := by
  intro s lexed
  have looks := peekSecond_looks lexed
  have run : peekSecond s = s.cursor.peekSecond >>= fun t => .ok (t, s) := rfl
  rw [run]
  cases read : s.cursor.peekSecond with
  | error fault =>
    rw [read] at looks
    exact looks
  | ok t => exact ⟨trivial, lexed⟩

theorem advance_run (s : ParserState) : advance s = (s.cursor.advance >>= fun r => .ok (r, s)) >>= fun r =>
    .ok (r.1.1, { s with cursor := r.1.2 }) := rfl

theorem advance_gives : Gives stream advance (Meets stream) := by
  intro s lexed
  have looks := peek_looks lexed
  rw [advance_run, Cursor.advance]
  cases read : s.cursor.peek with
  | error fault =>
    rw [read] at looks
    exact looks
  | ok t =>
    rw [read] at looks
    exact ⟨looks, tail_lexed lexed⟩

theorem advance_safe : Safe stream advance := advance_gives.safe

theorem sees_safe (kind : TokenKind) : Safe stream (sees kind) := peek_gives.bind fun _ _ => .pure trivial

theorem accept_gives (kind : TokenKind) :
    Gives stream (accept kind) fun found => ∀ t, found = some t → t.kind = kind ∧ Meets stream t := by
  intro s lexed
  have looks := peek_looks lexed
  have run : accept kind s = (s.cursor.peek >>= fun t => .ok (decide (t.kind = kind), s)) >>= fun r =>
      (if r.1 = true then some <$> advance else pure none : Parser (Option Token)) r.2 := by
    have seen : sees kind s = s.cursor.peek >>= fun t => .ok (decide (t.kind = kind), s) := by
      change ((s.cursor.peek >>= fun t => .ok (t, s)) >>= fun r => _) = _
      cases s.cursor.peek <;> rfl
    rw [← seen]
    rfl
  cases read : s.cursor.peek with
  | error fault =>
    rw [read] at looks
    rw [run, read]
    exact looks
  | ok t =>
    rw [read] at looks
    have decided : accept kind s =
        (if decide (t.kind = kind) = true then some <$> advance else pure none : Parser (Option Token)) s := by
      rw [run, read]
      rfl
    by_cases same : t.kind = kind
    · have advanced : accept kind s = advance s >>= fun r => .ok (some r.1, r.2) := by
        rw [decided, if_pos (decide_eq_true same)]
        rfl
      rw [advanced, advance_run, Cursor.advance, read]
      refine ⟨?_, tail_lexed lexed⟩
      rintro _ ⟨⟩
      exact ⟨same, looks⟩
    · rw [decided, if_neg (by simpa using same)]
      refine ⟨?_, lexed⟩
      rintro _ ⟨⟩

theorem accept_safe (kind : TokenKind) : Safe stream (accept kind) := (accept_gives kind).safe

theorem acceptTwo_safe (first second : TokenKind) : Safe stream (acceptTwo first second) := by
  refine peek_gives.bind fun a _ => peekSecond_safe.bind fun b _ => ?_
  split
  · exact advance_safe.bind fun _ _ => advance_safe.bind fun _ _ => .pure trivial
  · exact .pure trivial

theorem unexpected_gives (what : String) : Gives stream (unexpected what : Parser α) P :=
  peek_gives.bind fun _ met => faultAt_gives (.token met.shown rfl)

theorem expect_gives (kind : TokenKind) (what : String) :
    Gives stream (expect kind what) fun t => t.kind = kind ∧ Meets stream t := by
  refine (accept_gives kind).bind fun found given => ?_
  cases found with
  | some t => exact .pure (given t rfl)
  | none => exact unexpected_gives what

theorem expect_safe (kind : TokenKind) (what : String) : Safe stream (expect kind what) := (expect_gives kind what).safe

/-- A name that is read is plain. -/
theorem expect_name (what : String) : Gives stream (expect .ident what) fun t => isHidden t.text = false :=
  (expect_gives .ident what).mono fun _ given => given.2.plain given.1

theorem acceptAny_gives (choices : List (Symbol × α)) :
    Gives stream (acceptAny choices) fun found => ∀ t a, found = some (t, a) → a ∈ choices.map (·.2) := by
  induction choices with
  | nil => exact .pure (by simp)
  | cons choice rest ih =>
    obtain ⟨s, a⟩ := choice
    refine Gives.bind (P := fun _ => True) (accept_safe _) fun found _ => ?_
    cases found with
    | some t => exact .pure (by simp)
    | none => exact ih.mono fun _ h t b eq => List.mem_cons_of_mem _ (h t b eq)

theorem rounds_gives {round : σ → Parser (σ ⊕ α)} {I : σ → Prop}
    (step : ∀ s, I s → Gives stream (round s) (Sum.elim I P)) (fuel : Nat) (s : σ) (initially : I s) :
    Gives stream (rounds round fuel s) P := by
  induction fuel generalizing s with
  | zero => exact unexpected_gives _
  | succ fuel ih =>
    refine (step s initially).bind fun result good => ?_
    cases result with
    | inl s => exact ih s good
    | inr a => exact .pure good

theorem separated_gives {element : List α → Parser α} (close : Symbol) (fuel : Nat)
    (each : ∀ before, Gives stream (element before) P) :
    Gives stream (separated element close fuel) fun as => ∀ a ∈ as, P a := by
  refine Gives.bind (P := fun _ => True) (accept_safe _) fun closed _ => ?_
  split
  · exact .pure (by simp)
  · refine rounds_gives (I := fun before => ∀ a ∈ before, P a) ?_ fuel [] (by simp)
    intro before good
    refine (each before).bind fun a here => ?_
    have all : ∀ b ∈ a :: before, P b := by simpa using ⟨here, good⟩
    refine Gives.bind (P := fun _ => True) (accept_safe _) fun comma _ => ?_
    split
    · exact .pure all
    · exact (expect_safe _ _).bind fun _ _ => .pure (by simpa [or_comm] using all)

/-- An expression that spells calls and names as it should, and that stands where a name does if it is a variable. -/
structure IsRead (stream : TokenStream) (e : Expr) : Prop where
  spells : Spells e.calls e.names
  names : stream.Names e

abbrev GivesExpr (stream : TokenStream) (p : Parser Expr) : Prop := Gives stream p (IsRead stream)

theorem leftToRight_gives {operators : List (Symbol × (Position → Expr → Expr → Expr))}
    {operand : Parser Expr} (fuel : Nat) (operands : GivesExpr stream operand)
    (builds : ∀ build ∈ operators.map (·.2), ∀ place left right,
      (build place left right).calls = left.calls ++ right.calls ∧
        (build place left right).names = left.names ++ right.names ∧
        ∀ name here, build place left right ≠ .variable name here) :
    GivesExpr stream (leftToRight operators operand fuel) := by
  refine operands.bind fun first here => rounds_gives (I := IsRead stream) ?_ fuel first here
  intro left good
  refine (acceptAny_gives operators).bind fun found among => ?_
  cases found with
  | none => exact .pure good
  | some found =>
    obtain ⟨t, build⟩ := found
    refine operands.bind fun right more => .pure ?_
    obtain ⟨calls, names, other⟩ := builds build (among t build rfl) t.position left right
    have spells : Spells (build t.position left right).calls (build t.position left right).names := by
      rw [calls, names]
      exact good.spells.append more.spells
    exact ⟨spells, fun name place same => absurd same (other name place)⟩

theorem disjunction_gives {operand : Parser Expr} (fuel : Nat) (operands : GivesExpr stream operand) :
    GivesExpr stream (disjunction operand fuel) := by
  unfold disjunction
  repeat' first
    | apply leftToRight_gives
    | exact operands
  all_goals simp [multiplicative, additive, comparison, equality, operator, Expr.calls, Expr.names]

theorem fromOperand_gives {operand : Parser Expr} (fuel : Nat) (operands : GivesExpr stream operand) :
    GivesExpr stream (fromOperand operand fuel) := by
  refine (disjunction_gives fuel operands).bind fun first here => ?_
  refine Gives.bind (P := fun _ => True) (accept_safe _) fun colon _ => ?_
  cases colon with
  | none => exact .pure here
  | some colon =>
    refine (disjunction_gives fuel operands).bind fun second there => .pure ⟨?_, nofun⟩
    simpa only [Expr.calls, Expr.names] using here.spells.append there.spells

/-- Arguments come with one tag each. -/
theorem arguments_gives {expression : Parser Expr} (fuel : Nat) (expressions : GivesExpr stream expression) :
    Gives stream (arguments expression fuel) fun args =>
      args.1.length = args.2.length ∧ Spells (callsAll args.2) (namesAll args.2) := by
  refine (separated_gives (P := fun a : Option String × Expr => Spells a.2.calls a.2.names) _ fuel ?_).bind
    fun args good => .pure ?_
  · intro before
    refine (acceptTwo_safe _ _).bind fun tag _ => expressions.bind fun value here => .pure here.spells
  · refine ⟨by simp, spells_all fun e member => ?_⟩
    rw [List.unzip_snd] at member
    obtain ⟨arg, among, rfl⟩ := List.mem_map.mp member
    exact good arg among

theorem primary_gives {expression : Parser Expr} (fuel : Nat) (expressions : GivesExpr stream expression) :
    GivesExpr stream (primary expression fuel) := by
  have items (close : Symbol) : Gives stream (separated (fun _ => expression) close fuel) fun es =>
      Spells (callsAll es) (namesAll es) :=
    (separated_gives close fuel fun _ => expressions).mono fun es good => spells_all fun e among =>
      (good e among).spells
  refine peek_gives.bind fun t met => ?_
  split
  · exact advance_safe.bind fun _ _ => .pure ⟨by simpa only [Expr.calls, Expr.names] using spells_nil, nofun⟩
  · next ident =>
    refine advance_safe.bind fun _ _ => Gives.bind (P := fun _ => True) (accept_safe _) fun paren _ => ?_
    split
    · refine (arguments_gives fuel expressions).bind fun args good => .pure ⟨?_, nofun⟩
      have tagged : SpelledCall.IsTagged ⟨false, t.text, args.1, args.2.length⟩ := good.1
      simpa only [Expr.calls, Expr.names] using good.2.call tagged
    · refine .pure ⟨by simpa only [Expr.calls, Expr.names] using spells_nil.name (met.plain ident), ?_⟩
      rintro name place ⟨⟩
      exact ⟨t, met.shown, ident, rfl, rfl⟩
  · refine advance_safe.bind fun _ _ => expressions.bind fun inner here => ?_
    exact (expect_safe _ _).bind fun _ _ => .pure ⟨by simpa only [Expr.calls, Expr.names] using here.spells, nofun⟩
  · refine advance_safe.bind fun _ _ => (items _).bind fun es good => .pure ⟨?_, nofun⟩
    simpa only [Expr.calls, Expr.names] using good
  · refine advance_safe.bind fun _ _ => (items _).bind fun es good => .pure ⟨?_, nofun⟩
    simpa only [Expr.calls, Expr.names] using good
  · exact unexpected_gives _

theorem postfixed_gives {expression : Parser Expr} (fuel : Nat) (expressions : GivesExpr stream expression) :
    GivesExpr stream (postfixed expression fuel) := by
  refine (primary_gives fuel expressions).bind fun first here =>
    rounds_gives (I := IsRead stream) ?_ fuel first here
  intro e good
  refine Gives.bind (P := fun _ => True) (accept_safe _) fun dot _ => ?_
  split
  · refine (expect_safe _ _).bind fun name _ =>
      Gives.bind (P := fun _ => True) (accept_safe _) fun paren _ => ?_
    split
    · refine (arguments_gives fuel expressions).bind fun args given => .pure ⟨?_, nofun⟩
      have tagged : SpelledCall.IsTagged ⟨true, name.text, args.1, args.2.length⟩ := given.1
      simpa only [Expr.calls, Expr.names] using (good.spells.append given.2).call tagged
    · exact .pure ⟨good.spells, nofun⟩
  · refine Gives.bind (P := fun _ => True) (accept_safe _) fun bracket _ => ?_
    cases bracket with
    | none => exact .pure good
    | some bracket =>
      refine expressions.bind fun key there => (expect_safe _ _).bind fun _ _ => .pure ⟨?_, nofun⟩
      simpa only [Expr.calls, Expr.names] using good.spells.append there.spells

theorem unary_gives (fuel : Nat) : GivesExpr stream (unary fuel) := by
  induction fuel with
  | zero => exact unexpected_gives _
  | succ fuel ih =>
    refine (acceptAny_gives _).bind fun found _ => ?_
    cases found with
    | some found =>
      exact ih.bind fun operand here => .pure ⟨by simpa only [Expr.calls, Expr.names] using here.spells, nofun⟩
    | none => exact postfixed_gives fuel (fromOperand_gives fuel ih)

theorem expression_gives (fuel : Nat) : GivesExpr stream (expression fuel) :=
  fromOperand_gives fuel (unary_gives fuel)

abbrev GivesStmt (stream : TokenStream) (p : Parser Stmt) : Prop :=
  Gives stream p fun s => Spells s.calls s.names

abbrev GivesBlock (stream : TokenStream) (p : Parser (List Stmt)) : Prop :=
  Gives stream p fun body => Spells (blockCalls body) (blockNames body)

/-- A token whose kind is all that matters. -/
theorem Gives.after {p : Parser α} {q : α → Parser β} (first : Safe stream p) (second : ∀ a, Gives stream (q a) Q) :
    Gives stream (p >>= q) Q :=
  first.bind fun a _ => second a

theorem declare_safe {name : String} {place : Position} (blamed : stream.Blames ⟨place, .classShadowsName name⟩) :
    Safe stream (declare name place) := by
  intro s lexed
  have run : declare name place s = (if name ∈ s.classes then faultAt place (.classShadowsName name)
      else set { s with topLevel := name :: s.topLevel } : Parser Unit) s := rfl
  rw [run]
  by_cases taken : name ∈ s.classes
  · rw [if_pos taken]
    exact blamed
  · rw [if_neg taken]
    exact ⟨trivial, lexed⟩

theorem condition_gives (fuel : Nat) : GivesExpr stream (condition fuel) :=
  .after (expect_safe _ _) fun _ => (expression_gives fuel).bind fun _ here =>
    .after (expect_safe _ _) fun _ => .pure here

theorem block_gives {statement : Parser Stmt} (fuel : Nat) (statements : GivesStmt stream statement) :
    GivesBlock stream (block statement fuel) := by
  refine .after (expect_safe _ _) fun _ =>
    rounds_gives (I := fun before => ∀ s ∈ before, Spells s.calls s.names) ?_ fuel [] (by simp)
  intro before good
  refine .after (accept_safe _) fun closed => ?_
  split
  · have here : ∀ s ∈ before.reverse, Spells s.calls s.names := by simpa using good
    exact .pure (spells_block here)
  · refine .after (sees_safe _) fun ended => ?_
    split
    · exact unexpected_gives _
    · exact statements.bind fun s here => .pure (by simpa using ⟨here, good⟩)

theorem otherwise_gives {condition : Parser Expr} {body : Parser (List Stmt)}
    (conditions : GivesExpr stream condition) (bodies : GivesBlock stream body) (fuel : Nat) :
    Gives stream (otherwise condition body fuel) fun o => Spells o.calls o.names := by
  induction fuel with
  | zero => exact unexpected_gives _
  | succ fuel ih =>
    have another : Gives stream (do
        let c ← condition
        let b ← body
        let rest ← otherwise condition body fuel
        pure (Otherwise.branch c b rest)) fun o => Spells o.calls o.names := by
      refine conditions.bind fun c h₁ => bodies.bind fun b h₂ => ih.bind fun rest h₃ => .pure ?_
      simpa only [Otherwise.calls, Otherwise.names] using (h₁.spells.append h₂).append h₃
    refine .after (accept_safe _) fun elifWord => ?_
    split
    · exact another
    refine .after (accept_safe _) fun elseWord => ?_
    split
    · refine .after (accept_safe _) fun ifWord => ?_
      split
      · exact another
      · exact bodies.map fun b here => by simpa only [Otherwise.calls, Otherwise.names] using here
    · exact .pure (by simpa only [Otherwise.calls, Otherwise.names] using spells_nil)

theorem defaultValue_safe (parameter : String) : Safe stream (defaultValue parameter) := by
  refine advance_gives.bind fun t met => ?_
  split
  · exact .pure trivial
  · next none => exact faultAt_gives (.token met.shown none)

theorem parameter_safe (before : List ParamTree) : Safe stream (parameter before) := by
  refine (expect_gives _ _).bind fun t ⟨ident, met⟩ => ?_
  split
  · exact faultAt_gives (.token met.shown ⟨ident, rfl⟩)
  refine .after (accept_safe _) fun assigned => ?_
  split
  · exact .after (defaultValue_safe _) fun _ => .pure trivial
  · exact .pure trivial

abbrev GivesFunction (stream : TokenStream) (p : Parser FunctionTree) : Prop :=
  Gives stream p fun f => Spells (blockCalls f.body) (f.name :: blockNames f.body)

theorem function_gives (place : Position) {statement : Parser Stmt} (fuel : Nat)
    (statements : GivesStmt stream statement) : GivesFunction stream (function place statement fuel) := by
  refine (expect_name _).bind fun name plain => .after (expect_safe _ _) fun _ =>
    .after (separated_gives _ fuel parameter_safe).safe fun params =>
    .after (modify_safe fun _ => rfl) fun _ => ?_
  exact (block_gives fuel statements).bind fun body here =>
    .after (modify_safe fun _ => rfl) fun _ => .pure (here.name plain)

theorem target?_spells {e : Expr} {t : Target} (h : e.target? = some t) (spells : Spells e.calls e.names) :
    Spells t.calls t.names := by
  cases e <;> simp only [Expr.target?, Option.some.injEq, reduceCtorEq] at h <;> subst h <;>
    simpa only [Target.calls, Target.names, Expr.calls, Expr.names] using spells

theorem target?_eq_variable {e : Expr} {name : String} {place : Position}
    (h : e.target? = some (.variable name place)) : e = .variable name place := by
  cases e <;> simp only [Expr.target?, Option.some.injEq, reduceCtorEq] at h
  cases h
  rfl

theorem assignment_gives (first : Token) {target : Expr} {place : Position} (fuel : Nat)
    (here : IsRead stream target) (blamed : stream.Blames ⟨place, .invalidAssignmentTarget⟩) :
    GivesStmt stream (assignment first target place fuel) := by
  refine (expression_gives fuel).bind fun value there => ?_
  cases denoted : target.target? with
  | none => exact faultAt_gives blamed
  | some t =>
    have finish : GivesStmt stream (do
        let semicolon ← expectSymbol .semicolon
        pure (.assign ⟨first.position.line, semicolon.position.line⟩ t value place)) := by
      refine .after (expect_safe _ _) fun _ => .pure ?_
      simpa only [Stmt.calls, Stmt.names] using (target?_spells denoted here.spells).append there.spells
    dsimp only
    split
    · next name place =>
      obtain ⟨t, shown, ident, rfl, rfl⟩ := here.names name place (target?_eq_variable denoted)
      refine .after get_safe fun s => ?_
      split
      · exact .after (declare_safe (.token shown (.inl ⟨ident, rfl⟩))) fun _ => finish
      · exact finish
    · exact finish

theorem simple_gives (first : Token) (fuel : Nat) : GivesStmt stream (simple first fuel) := by
  refine .after (accept_safe _) fun returned => ?_
  split
  · refine .after (sees_safe _) fun ended => ?_
    have finish (value : Option Expr) (spells : Spells (value.elim [] Expr.calls) (value.elim [] Expr.names)) :
        GivesStmt stream (do
          let semicolon ← expectSymbol .semicolon
          pure (.ret ⟨first.position.line, semicolon.position.line⟩ value)) :=
      .after (expect_safe _ _) fun _ => .pure spells
    split
    · exact finish none spells_nil
    · exact ((expression_gives fuel).map (Q := fun v => Spells (v.elim [] Expr.calls) (v.elim [] Expr.names))
        fun e here => here.spells).bind finish
  · refine (expression_gives fuel).bind fun e here => (accept_gives _).bind fun sign read => ?_
    split
    · next sign =>
      obtain ⟨isSign, met⟩ := read sign rfl
      exact assignment_gives first fuel here (.token met.shown isSign)
    · exact .after (expect_safe _ _) fun _ => .pure (by simpa only [Stmt.calls, Stmt.names] using here.spells)

theorem forLoop_gives (place : Position) {statement : Parser Stmt} (fuel : Nat)
    (statements : GivesStmt stream statement) : GivesStmt stream (forLoop place statement fuel) := by
  refine .after (expect_safe _ _) fun _ => (expect_name _).bind fun name plain =>
    .after (expect_safe _ _) fun _ => (expression_gives fuel).bind fun items here =>
    .after (expect_safe _ _) fun _ => (block_gives fuel statements).bind fun body there => .pure ?_
  simpa only [Stmt.calls, Stmt.names, List.cons_append] using (here.spells.append there).name plain

theorem guarded_gives (line : Nat) {statement : Parser Stmt} (fuel : Nat)
    (statements : GivesStmt stream statement) : GivesStmt stream (guarded line statement fuel) := by
  refine (block_gives fuel statements).bind fun body here => .after (expect_safe _ _) fun _ =>
    .after (accept_safe _) fun colon => ?_
  have finish (binding : Option String) (plain : AllPlain binding.toList) : GivesStmt stream (do
      let handler ← block statement fuel
      pure (.guarded line body binding handler)) := by
    refine (block_gives fuel statements).bind fun handler there => .pure ?_
    simpa only [Stmt.calls, Stmt.names, List.append_nil, List.append_assoc] using
      (here.append (⟨allTagged_nil, plain⟩ : Spells [] binding.toList)).append there
  split
  · exact (expect_name _).bind fun name plain => finish (some name.text) (by simpa using plain)
  · exact finish none allPlain_nil

theorem statement_gives (fuel : Nat) : GivesStmt stream (statement fuel) := by
  induction fuel with
  | zero => exact unexpected_gives _
  | succ fuel ih =>
    have blocks := block_gives fuel ih
    refine peek_gives.bind fun first met => ?_
    dsimp only
    split
    · refine .after advance_safe fun _ => (condition_gives fuel).bind fun c h₁ =>
        blocks.bind fun body h₂ =>
        (otherwise_gives (condition_gives fuel) blocks fuel).bind fun rest h₃ => .pure ?_
      simpa only [Stmt.calls, Stmt.names] using (h₁.spells.append h₂).append h₃
    · refine .after advance_safe fun _ => (condition_gives fuel).bind fun c h₁ =>
        blocks.bind fun body h₂ => .pure ?_
      simpa only [Stmt.calls, Stmt.names] using h₁.spells.append h₂
    · exact .after advance_safe fun _ => forLoop_gives _ fuel ih
    · exact .after advance_safe fun _ => guarded_gives _ fuel ih
    · refine .after advance_safe fun _ => (function_gives _ fuel ih).bind fun f here => .pure ?_
      simpa only [Stmt.calls, Stmt.names] using here
    · next isStatic => exact faultAt_gives (.token met.shown isStatic)
    · exact simple_gives first fuel

theorem classMember_gives (fuel : Nat) : Gives stream (classMember fuel) fun m => Spells m.calls m.names := by
  have functions (place : Position) : Gives stream (function place (statement fuel) fuel) fun f =>
      Spells (blockCalls f.body) (blockNames f.body) :=
    (function_gives place fuel (statement_gives fuel)).mono fun f here =>
      ⟨here.tagged, ((allPlain_cons _ _).mp here.plain).2⟩
  refine .after (acceptTwo_safe _ _) fun opening => ?_
  split
  · exact (functions _).map fun f here => here
  refine .after (accept_safe _) fun staticWord => ?_
  split
  · exact .after (expect_safe _ _) fun name => .after (expect_safe _ _) fun _ =>
      (expression_gives fuel).bind fun value here => .after (expect_safe _ _) fun _ => .pure here.spells
  refine .after (accept_safe _) fun defWord => ?_
  split
  · exact (functions _).map fun f here => here
  · exact unexpected_gives _

theorem classDef_gives (line fuel : Nat) :
    Gives stream (classDef line fuel) fun c => Spells c.calls (c.name :: c.names) := by
  refine (expect_gives _ _).bind fun name ⟨ident, met⟩ => .after get_safe fun s => ?_
  split
  · exact faultAt_gives (.token met.shown (.inl ⟨ident, rfl⟩))
  refine .after (expect_safe _ _) fun _ => Gives.bind (P := fun members => ∀ m ∈ members, Spells m.calls m.names)
    (rounds_gives (I := fun before => ∀ m ∈ before, Spells m.calls m.names) ?_ fuel [] (by simp)) ?_
  · intro before good
    refine .after (accept_safe _) fun closed => ?_
    split
    · exact .pure (by simpa using good)
    · exact (classMember_gives fuel).bind fun m here => .pure (by simpa using ⟨here, good⟩)
  · intro members good
    exact .after (modify_safe fun _ => rfl) fun _ => .pure ((spells_flatMap good).name (met.plain ident))

theorem item_gives (fuel : Nat) : Gives stream (item fuel) fun i => Spells i.calls i.names := by
  refine (accept_gives _).bind fun defWord read => ?_
  split
  · next opening =>
    obtain ⟨isDef, met⟩ := read opening rfl
    exact (function_gives _ fuel (statement_gives fuel)).bind fun f here =>
      .after (declare_safe (.token met.shown (.inr isDef))) fun _ => .pure here
  refine .after (accept_safe _) fun classWord => ?_
  split
  · exact (classDef_gives _ fuel).map fun c here => here
  · exact (statement_gives fuel).map fun s here => here

theorem module_gives (fuel : Nat) : Gives stream (module fuel) fun m => Spells m.calls m.names := by
  refine Gives.bind (P := fun items => ∀ i ∈ items, Spells i.calls i.names)
    (rounds_gives (I := fun before => ∀ i ∈ before, Spells i.calls i.names) ?_ fuel [] (by simp)) ?_
  · intro before good
    refine .after (sees_safe _) fun ended => ?_
    split
    · exact .pure (by simpa using good)
    · exact (item_gives fuel).bind fun i here => .pure (by simpa using ⟨here, good⟩)
  · intro items good
    exact .after peek_gives.safe fun _ => .pure (spells_flatMap good)

end Parser

namespace TokenStream

/-- A fault of parsing is one of the text, if that of the lexer is. -/
theorem Blames.inText {stream : TokenStream} {fault : Fault} (blamed : stream.Blames fault)
    (lexical : ∀ fault, stream.failure = some fault → fault.InText) : fault.InText := by
  cases blamed with
  | text failed => exact lexical _ failed
  | token shown about =>
    rintro n rfl
    exact about

theorem ofSource_lexed (source : String) :
    (ParserState.ofStream (.ofSource source)).cursor.Lexed (.ofSource source) :=
  ⟨List.suffix_refl _, rfl, rfl, Lexer.collect_isPlain ((Lexer.State.ofSource source).rest.length + 1) _⟩

theorem ofSource_failed {source : String} {fault : Fault} (failed : (ofSource source).failure = some fault) :
    ∃ s, Lexer.next s = .error fault :=
  Lexer.collect_failed ((Lexer.State.ofSource source).rest.length + 1) failed

end TokenStream

/-- What parsing a source text spells, or what its fault is about. -/
theorem ModuleTree.ofSource_reads (source : String) :
    match ModuleTree.ofSource source with
    | .ok m => Spells m.calls m.names
    | .error fault => (TokenStream.ofSource source).Blames fault := by
  have given := Parser.module_gives ((TokenStream.ofSource source).tokens.length + 2) _
    (TokenStream.ofSource_lexed source)
  have run : ModuleTree.ofSource source =
      Parser.module ((TokenStream.ofSource source).tokens.length + 2) (.ofStream (.ofSource source)) >>=
        fun r => .ok r.1 := rfl
  rw [run]
  cases parsed : Parser.module ((TokenStream.ofSource source).tokens.length + 2)
      (.ofStream (.ofSource source)) with
  | error fault =>
    rw [parsed] at given
    exact given
  | ok r =>
    rw [parsed] at given
    exact given.1

/-- What parsing a source text gives: a tree whose calls are tagged, or a fault of the text. -/
theorem ModuleTree.ofSource_gives (source : String) :
    match ModuleTree.ofSource source with
    | .ok m => AllTagged m.calls
    | .error fault => fault.InText := by
  have reads := ModuleTree.ofSource_reads source
  cases parsed : ModuleTree.ofSource source with
  | error fault =>
    rw [parsed] at reads
    refine reads.inText fun fault failed => ?_
    obtain ⟨s, read⟩ := TokenStream.ofSource_failed failed
    exact Lexer.next_fault read
  | ok m =>
    rw [parsed] at reads
    exact reads.tagged

/-- No name of a text that parses is one that the compiler makes up. -/
theorem ModuleTree.ofSource_plain {source : String} {m : ModuleTree} (parsed : ModuleTree.ofSource source = .ok m) :
    AllPlain m.names := by
  have reads := ModuleTree.ofSource_reads source
  rw [parsed] at reads
  exact reads.plain

end ScriptEngine
