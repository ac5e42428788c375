import ScriptEngine.Proofs.Derivation
import ScriptEngine.Tree.Parser

/-! # States of the parser

What the state of the parser has to do with the clauses read so far. A clause can stand at a state or not, and
changes the names that are declared; so clauses that can all stand, one after the other, are those that fulfil the
conditions. In a text without a fault, looking at the next token never fails.
-/

namespace ScriptEngine

/-- The form of an expression. -/
def Expr.form : Expr → Form
  | .variable name _ => .variable name
  | .member .. => .member
  | .index .. => .element
  | _ => .value

/-- The clause by which an item of a module declares its name. -/
def Item.declarations : Item → List Clause
  | .function f => [.declares f.name false]
  | .classDef c => [.declares c.name true]
  | .statement _ => []

/-- The names of the functions and classes of a module, as they are declared one after the other. -/
def ModuleTree.declarations (m : ModuleTree) : List Clause := m.items.flatMap Item.declarations

/-- A token that a text spells: it is not the end token, and it has a constant if its kind has one. -/
structure Token.IsSpelled (t : Token) : Prop where
  kind : t.kind ≠ .endOfInput
  literal : t.literal.isSome = t.kind.isConstant

namespace ParserState

variable (s : ParserState) (c : Clause) (rest : List Token)

/-- A state to which the tokens of a text without a fault are to come. -/
structure IsWhole : Prop where
  failure : s.cursor.failure = none
  spelled : ∀ t ∈ s.cursor.tokens, t.IsSpelled

/-- The token that comes next. -/
def next : Token :=
  match s.cursor.tokens with
  | t :: _ => t
  | [] => s.cursor.endToken

/-- The state when only some tokens are left. -/
def past : ParserState := { s with cursor := { s.cursor with tokens := rest } }

/-- The token that comes after that. -/
def second : Token := (s.past s.cursor.tokens.tail).next

/-- The state after a clause. Nothing is declared inside a function. -/
def meet : ParserState :=
  match c with
  | .declares name isClass =>
    if s.depth = 0 then
      if isClass then { s with classes := name :: s.classes } else { s with topLevel := name :: s.topLevel }
    else s
  | _ => s

/-- Whether a clause is one that can stand here. -/
def Permits : Prop :=
  match c with
  | .declares name isClass => s.depth = 0 → name ∉ s.classes ∧ (isClass → name ∉ s.topLevel)
  | c => c.IsAllowed

def meetAll (cs : List Clause) : ParserState := cs.foldl meet s

/-- Whether clauses can stand here, one after the other. -/
def PermitsAll (s : ParserState) : List Clause → Prop
  | [] => True
  | c :: cs => s.Permits c ∧ (s.meet c).PermitsAll cs

@[simp] theorem past_tokens : (s.past rest).cursor.tokens = rest := rfl

theorem past_self {s : ParserState} {rest : List Token} (tokens : s.cursor.tokens = rest) : s.past rest = s := by
  rw [← tokens]
  rfl

@[simp] theorem meet_cursor : (s.meet c).cursor = s.cursor := by
  unfold meet
  repeat' first | rfl | split

@[simp] theorem meet_depth : (s.meet c).depth = s.depth := by
  unfold meet
  repeat' first | rfl | split

theorem meet_past : (s.past rest).meet c = (s.meet c).past rest := by
  unfold meet past
  cases c <;> dsimp only
  split
  · split <;> rfl
  · rfl

theorem permits_past : (s.past rest).Permits c ↔ s.Permits c := by
  cases c <;> exact Iff.rfl

variable {s} {cs ds : List Clause}

@[simp] theorem meetAll_cursor : (s.meetAll cs).cursor = s.cursor := by
  induction cs generalizing s with
  | nil => rfl
  | cons c cs ih => exact ih.trans (meet_cursor s c)

@[simp] theorem meetAll_depth : (s.meetAll cs).depth = s.depth := by
  induction cs generalizing s with
  | nil => rfl
  | cons c cs ih => exact ih.trans (meet_depth s c)

theorem meetAll_past : (s.past rest).meetAll cs = (s.meetAll cs).past rest := by
  induction cs generalizing s with
  | nil => rfl
  | cons c cs ih =>
    change ((s.past rest).meet c).meetAll cs = ((s.meet c).meetAll cs).past rest
    rw [meet_past, ih]

theorem permitsAll_past : (s.past rest).PermitsAll cs ↔ s.PermitsAll cs := by
  induction cs generalizing s with
  | nil => exact Iff.rfl
  | cons c cs ih => exact and_congr (permits_past s c rest) (meet_past s c rest ▸ ih)

theorem meetAll_append : s.meetAll (cs ++ ds) = (s.meetAll cs).meetAll ds := List.foldl_append

theorem permitsAll_append : s.PermitsAll (cs ++ ds) ↔ s.PermitsAll cs ∧ (s.meetAll cs).PermitsAll ds := by
  induction cs generalizing s with
  | nil => exact (iff_of_eq (true_and _)).symm
  | cons c cs ih =>
    change s.Permits c ∧ (s.meet c).PermitsAll (cs ++ ds) ↔
      (s.Permits c ∧ (s.meet c).PermitsAll cs) ∧ ((s.meet c).meetAll cs).PermitsAll ds
    rw [ih, and_assoc]

/-- Clauses that declare nothing leave the names alone. -/
theorem meetAll_local (quiet : ∀ c ∈ cs, c.isLocal = true) : s.meetAll cs = s := by
  induction cs with
  | nil => rfl
  | cons c cs ih =>
    obtain ⟨here, others⟩ := List.forall_mem_cons.mp quiet
    have same : s.meet c = s := by
      cases c with
      | declares => cases here
      | _ => rfl
    change (s.meet c).meetAll cs = s
    rw [same, ih others]

/-- Of clauses that declare nothing, only the conditions on single ones matter. -/
theorem permitsAll_local (quiet : ∀ c ∈ cs, c.isLocal = true) : s.PermitsAll cs ↔ ∀ c ∈ cs, c.IsAllowed := by
  induction cs with
  | nil => simp [PermitsAll]
  | cons c cs ih =>
    obtain ⟨here, others⟩ := List.forall_mem_cons.mp quiet
    rw [List.forall_mem_cons, ← ih others]
    cases c with
    | declares => cases here
    | _ => exact Iff.rfl

/-- A declaration can be read before or after clauses that declare nothing. -/
theorem permitsAll_declared (quiet : ∀ c ∈ cs, c.isLocal = true) :
    s.PermitsAll (c :: cs) ↔ s.PermitsAll cs ∧ s.Permits c := by
  change s.Permits c ∧ (s.meet c).PermitsAll cs ↔ _
  rw [permitsAll_local quiet, permitsAll_local quiet, and_comm]

theorem meetAll_declared (quiet : ∀ c ∈ cs, c.isLocal = true) : s.meetAll (c :: cs) = s.meet c :=
  meetAll_local quiet

/-- Inside a function only the conditions on single clauses matter. -/
theorem permitsAll_inside (inside : s.depth ≠ 0) : s.PermitsAll cs ↔ ∀ c ∈ cs, c.IsAllowed := by
  induction cs with
  | nil => simp [PermitsAll]
  | cons c cs ih =>
    have same : s.meet c = s := by
      cases c <;> simp [meet, inside]
    have here : s.Permits c ↔ c.IsAllowed := by
      cases c <;> simp [Permits, Clause.IsAllowed, inside]
    rw [List.forall_mem_cons, ← ih, ← here]
    change _ ∧ (s.meet c).PermitsAll cs ↔ _
    rw [same]

theorem meetAll_inside (inside : s.depth ≠ 0) : s.meetAll cs = s := by
  induction cs with
  | nil => rfl
  | cons c cs ih =>
    have same : s.meet c = s := by
      cases c <;> simp [meet, inside]
    change (s.meet c).meetAll cs = s
    rw [same, ih]

theorem IsWhole.past {ts : List Token} (whole : s.IsWhole) (tokens : s.cursor.tokens = ts ++ rest) :
    (s.past rest).IsWhole where
  failure := whole.failure
  spelled t among := whole.spelled t (tokens ▸ List.mem_append_right ts among)

theorem IsWhole.onward {ts : List Token} (cs : List Clause) (whole : s.IsWhole)
    (tokens : s.cursor.tokens = ts ++ rest) :
    ((s.meetAll cs).past rest).IsWhole := by
  rw [← meetAll_past]
  have past := whole.past rest tokens
  exact ⟨by rw [meetAll_cursor, past.failure], by rw [meetAll_cursor]; exact past.spelled⟩

/-- A token that is not the end token is the first of those to come. -/
theorem next_cons (more : s.next.kind ≠ .endOfInput) : s.cursor.tokens = s.next :: s.cursor.tokens.tail := by
  unfold next at more ⊢
  cases tokens : s.cursor.tokens with
  | nil =>
    rw [tokens] at more
    exact absurd rfl more
  | cons t rest => rfl

/-- The next token has a constant if its kind has one, also if it is the end token. -/
theorem IsWhole.next_literal (whole : s.IsWhole) : s.next.literal.isSome = s.next.kind.isConstant := by
  unfold next
  cases tokens : s.cursor.tokens with
  | nil => rfl
  | cons t rest => exact (whole.spelled t (tokens ▸ List.mem_cons_self)).literal

theorem IsWhole.past_tail (whole : s.IsWhole) : (s.past s.cursor.tokens.tail).IsWhole where
  failure := whole.failure
  spelled t among := whole.spelled t (List.mem_of_mem_tail among)

end ParserState

namespace Parser

variable {s : ParserState}

theorem bind_eq {α β : Type} {p : Parser α} {f : α → Parser β} {s s' : ParserState} {a : α}
    (read : p s = .ok (a, s')) : (p >>= f) s = f a s' := by
  change (p s >>= fun r => f r.1 r.2) = f a s'
  rw [read]
  rfl

theorem bind_fault {α β : Type} {p : Parser α} {f : α → Parser β} {s : ParserState} {fault : Fault}
    (failed : p s = .error fault) : (p >>= f) s = .error fault := by
  change (p s >>= fun r => f r.1 r.2) = _
  rw [failed]
  rfl

theorem map_of {α β : Type} {p : Parser α} {f : α → β} {s s' : ParserState} {a : α} (read : p s = .ok (a, s')) :
    (f <$> p) s = .ok (f a, s') := by
  change (p s >>= fun r => .ok (f r.1, r.2)) = _
  rw [read]
  rfl

theorem map_fault {α β : Type} {p : Parser α} {f : α → β} {s : ParserState} {fault : Fault}
    (failed : p s = .error fault) : (f <$> p) s = .error fault := by
  change (p s >>= fun r => .ok (f r.1, r.2)) = _
  rw [failed]
  rfl

theorem peek_of {t : Token} (shown : s.cursor.peek = .ok t) : peek s = .ok (t, s) := by
  change (s.cursor.peek >>= fun t => .ok (t, s)) = _
  rw [shown]
  rfl

theorem peek_fault {fault : Fault} (failed : s.cursor.peek = .error fault) : peek s = .error fault := by
  change (s.cursor.peek >>= fun t => .ok (t, s)) = _
  rw [failed]
  rfl

theorem peekSecond_of {t : Token} (shown : s.cursor.peekSecond = .ok t) : peekSecond s = .ok (t, s) := by
  change (s.cursor.peekSecond >>= fun t => .ok (t, s)) = _
  rw [shown]
  rfl

theorem peekSecond_fault {fault : Fault} (failed : s.cursor.peekSecond = .error fault) :
    peekSecond s = .error fault := by
  change (s.cursor.peekSecond >>= fun t => .ok (t, s)) = _
  rw [failed]
  rfl

theorem advance_of {t : Token} (shown : s.cursor.peek = .ok t) :
    advance s = .ok (t, s.past s.cursor.tokens.tail) := by
  have run : advance s = (s.cursor.advance >>= fun r => .ok (r, s)) >>= fun r : (Token × Cursor) × ParserState =>
      .ok (r.1.1, { s with cursor := r.1.2 }) := rfl
  rw [run, Cursor.advance, shown]
  rfl

theorem advance_fault {fault : Fault} (failed : s.cursor.peek = .error fault) : advance s = .error fault := by
  have run : advance s = (s.cursor.advance >>= fun r => .ok (r, s)) >>= fun r : (Token × Cursor) × ParserState =>
      .ok (r.1.1, { s with cursor := r.1.2 }) := rfl
  rw [run, Cursor.advance, failed]
  rfl

theorem sees_of {t : Token} (shown : s.cursor.peek = .ok t) (k : TokenKind) :
    sees k s = .ok (decide (t.kind = k), s) :=
  bind_eq (peek_of shown)

theorem accept_of {t : Token} (shown : s.cursor.peek = .ok t) (k : TokenKind) :
    accept k s = if t.kind = k then .ok (some t, s.past s.cursor.tokens.tail) else .ok (none, s) := by
  apply (bind_eq (sees_of shown k)).trans
  by_cases here : t.kind = k
  · rw [if_pos (by simpa using here), if_pos here]
    exact map_of (advance_of shown)
  · rw [if_neg (by simpa using here), if_neg here]
    rfl

/-- Where the next token but one is shown, it is the next one after the next. -/
theorem peek_past_tail {t : Token} (shown : s.cursor.peekSecond = .ok t) :
    (s.past s.cursor.tokens.tail).cursor.peek = .ok t := by
  rw [← shown, Cursor.peek, Cursor.peekSecond, ParserState.past_tokens]
  rcases s.cursor.tokens with _ | ⟨_, _ | ⟨_, _⟩⟩ <;> rfl

theorem acceptTwo_of {t u : Token} (first : s.cursor.peek = .ok t) (second : s.cursor.peekSecond = .ok u)
    (j k : TokenKind) :
    acceptTwo j k s = if t.kind = j ∧ u.kind = k then
      .ok (some (t, u), s.past s.cursor.tokens.tail.tail) else .ok (none, s) := by
  apply (bind_eq (peek_of first)).trans
  apply (bind_eq (peekSecond_of second)).trans
  by_cases both : t.kind = j ∧ u.kind = k
  · rw [if_pos both, if_pos both]
    exact (bind_eq (advance_of first)).trans (bind_eq (advance_of (peek_past_tail second)))
  · rw [if_neg both, if_neg both]
    rfl

theorem unexpected_of {α : Type} {t : Token} (shown : s.cursor.peek = .ok t) (what : String) :
    (unexpected what : Parser α) s = .error ⟨t.position, .unexpectedToken what t.describe⟩ :=
  bind_eq (peek_of shown)

theorem expect_of {t : Token} (shown : s.cursor.peek = .ok t) (k : TokenKind) (what : String) :
    expect k what s = if t.kind = k then .ok (t, s.past s.cursor.tokens.tail)
      else .error ⟨t.position, .unexpectedToken what t.describe⟩ := by
  have accepted := accept_of shown k
  by_cases here : t.kind = k
  · rw [if_pos here] at accepted ⊢
    exact bind_eq accepted
  · rw [if_neg here] at accepted ⊢
    exact (bind_eq accepted).trans (unexpected_of shown what)

theorem cursor_peek (whole : s.IsWhole) : s.cursor.peek = .ok s.next := by
  rw [Cursor.peek, ParserState.next]
  cases s.cursor.tokens with
  | nil =>
    rw [Cursor.atStop, whole.failure]
  | cons t rest => rfl

theorem cursor_peekSecond (whole : s.IsWhole) : s.cursor.peekSecond = .ok s.second := by
  rw [Cursor.peekSecond, ParserState.second, ParserState.next, ParserState.past_tokens]
  rcases s.cursor.tokens with _ | ⟨_, _ | ⟨t, _⟩⟩
  · rw [Cursor.atStop, whole.failure]
    rfl
  · rw [Cursor.atStop, whole.failure]
    rfl
  · rfl

theorem peek_eq (whole : s.IsWhole) : peek s = .ok (s.next, s) := peek_of (cursor_peek whole)

theorem peekSecond_eq (whole : s.IsWhole) : peekSecond s = .ok (s.second, s) :=
  peekSecond_of (cursor_peekSecond whole)

theorem advance_eq (whole : s.IsWhole) : advance s = .ok (s.next, s.past s.cursor.tokens.tail) :=
  advance_of (cursor_peek whole)

theorem sees_eq (whole : s.IsWhole) (k : TokenKind) : sees k s = .ok (decide (s.next.kind = k), s) :=
  sees_of (cursor_peek whole) k

theorem accept_eq (whole : s.IsWhole) (k : TokenKind) :
    accept k s = if s.next.kind = k then .ok (some s.next, s.past s.cursor.tokens.tail) else .ok (none, s) :=
  accept_of (cursor_peek whole) k

theorem acceptTwo_eq (whole : s.IsWhole) (j k : TokenKind) :
    acceptTwo j k s = if s.next.kind = j ∧ s.second.kind = k then
      .ok (some (s.next, s.second), s.past s.cursor.tokens.tail.tail) else .ok (none, s) :=
  acceptTwo_of (cursor_peek whole) (cursor_peekSecond whole) j k

end Parser

end ScriptEngine
