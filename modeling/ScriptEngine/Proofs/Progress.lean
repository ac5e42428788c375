import ScriptEngine.Proofs.Language
import ScriptEngine.Proofs.Peeking

/-! # Parsing reads on

Why parsing ends. Each round of a loop takes a token if another round comes after it, and a function that calls
itself has taken one before it does. So a loop goes round, and functions nest, no more often than there are tokens,
and no bound above that is ever met. And parsing takes no token after the first one that stands for the end of input:
what comes after that makes no difference.

All this comes from one relation between two runs of the parser, which may have different bounds, or something after
the end of the text. They go alike while there are fewer tokens than their bounds allow for.
-/

namespace ScriptEngine

/-- A fault with which a loop stops that outlives its bound. -/
def Fault.IsStall (fault : Fault) : Prop := ∃ found, fault.cause = .unexpectedToken "a token" found

/-- Something after the end token of a text: a token, others, a fault and a place to stop at. -/
structure Sequel where
  next : Token
  tokens : List Token
  failure : Option Fault
  stop : Position

namespace ParserState

/-- How many tokens are left. -/
def left (s : ParserState) : Nat := s.cursor.tokens.length

/-- The state where the end token does not come for ever, but once, and then something else. -/
def followed (s : ParserState) : Option Sequel → ParserState
  | none => s
  | some sequel => { s with
      cursor := ⟨s.cursor.tokens ++ s.cursor.endToken :: sequel.next :: sequel.tokens, sequel.failure, sequel.stop⟩ }

variable {s : ParserState} {tail : Option Sequel}

@[simp] theorem followed_topLevel : (s.followed tail).topLevel = s.topLevel := by cases tail <;> rfl

@[simp] theorem followed_classes : (s.followed tail).classes = s.classes := by cases tail <;> rfl

@[simp] theorem followed_depth : (s.followed tail).depth = s.depth := by cases tail <;> rfl

/-- The end is whole: only at the end of a text without a fault can something come. -/
def EndsWith (s : ParserState) (tail : Option Sequel) : Prop := tail.isSome → s.cursor.failure = none

theorem followed_peek (ends : s.EndsWith tail) : (s.followed tail).cursor.peek = s.cursor.peek := by
  cases tail with
  | none => rfl
  | some sequel =>
    have whole := ends rfl
    unfold followed Cursor.peek
    cases s.cursor.tokens with
    | nil =>
      change Except.ok s.cursor.endToken = s.cursor.atStop
      rw [Cursor.atStop, whole]
    | cons t rest => rfl

theorem followed_peekSecond {t : Token} {rest : List Token} (ends : s.EndsWith tail)
    (tokens : s.cursor.tokens = t :: rest) : (s.followed tail).cursor.peekSecond = s.cursor.peekSecond := by
  cases tail with
  | none => rfl
  | some sequel =>
    have whole := ends rfl
    unfold followed Cursor.peekSecond
    rw [tokens]
    cases rest with
    | nil =>
      change Except.ok s.cursor.endToken = s.cursor.atStop
      rw [Cursor.atStop, whole]
    | cons u rest => rfl

/-- Where the end token comes next, there is a token after it. -/
theorem followed_peekSecond_end (tail : Option Sequel) {t : Token} (shown : s.cursor.peek = .ok t)
    (tokens : s.cursor.tokens = []) :
    ∃ u, (s.followed tail).cursor.peekSecond = .ok u := by
  cases tail with
  | none =>
    refine ⟨t, ?_⟩
    rw [← shown, followed, Cursor.peekSecond, Cursor.peek, tokens]
  | some sequel =>
    refine ⟨sequel.next, ?_⟩
    unfold followed Cursor.peekSecond
    rw [tokens]
    rfl

/-- A token that comes next is the first of those that are left, or it stands for the end. -/
theorem peek_shows {t : Token} (shown : s.cursor.peek = .ok t) :
    (∃ rest, s.cursor.tokens = t :: rest) ∨ s.cursor.tokens = [] ∧ t = s.cursor.endToken := by
  unfold Cursor.peek at shown
  cases tokens : s.cursor.tokens with
  | nil =>
    rw [tokens] at shown
    dsimp only at shown
    rw [Cursor.atStop] at shown
    cases failed : s.cursor.failure with
    | some fault =>
      rw [failed] at shown
      cases shown
    | none =>
      rw [failed] at shown
      cases shown
      exact .inr ⟨rfl, rfl⟩
  | cons u rest =>
    rw [tokens] at shown
    cases shown
    exact .inl ⟨rest, rfl⟩

theorem atStop_faults {fault : Fault} (failed : s.cursor.atStop = .error fault) : s.cursor.failure = some fault := by
  rw [Cursor.atStop] at failed
  split at failed
  · next same =>
    cases failed
    exact same
  · cases failed

theorem peek_faults {fault : Fault} (failed : s.cursor.peek = .error fault) : s.cursor.failure = some fault := by
  unfold Cursor.peek at failed
  split at failed
  · cases failed
  · exact atStop_faults failed

theorem peekSecond_faults {fault : Fault} (failed : s.cursor.peekSecond = .error fault) :
    s.cursor.failure = some fault := by
  unfold Cursor.peekSecond at failed
  split at failed
  · cases failed
  · exact atStop_faults failed

/-- Past a token of the text, something still comes after its end. -/
theorem followed_tail {t : Token} {rest : List Token} (tokens : s.cursor.tokens = t :: rest) :
    (s.followed tail).past (s.followed tail).cursor.tokens.tail = (s.past rest).followed tail := by
  cases tail with
  | none => rw [followed, tokens]; rfl
  | some sequel => rw [followed, tokens]; rfl

theorem followed_tail_tail {t u : Token} {rest : List Token} (tokens : s.cursor.tokens = t :: u :: rest) :
    (s.followed tail).past (s.followed tail).cursor.tokens.tail.tail = (s.past rest).followed tail := by
  cases tail with
  | none => rw [followed, tokens]; rfl
  | some sequel => rw [followed, tokens]; rfl

/-- A token that comes next, if it does not stand for the end, is one of those that are left; past it one is less. -/
theorem past_next (tail : Option Sequel) {t : Token} (shown : s.cursor.peek = .ok t)
    (real : t.kind ≠ .endOfInput ∨ t.literal ≠ none) :
    ∃ rest, s.cursor.tokens = t :: rest ∧ (s.past s.cursor.tokens.tail).left + 1 = s.left ∧
      (s.followed tail).past (s.followed tail).cursor.tokens.tail = (s.past s.cursor.tokens.tail).followed tail := by
  rcases peek_shows shown with ⟨rest, tokens⟩ | ⟨-, rfl⟩
  · refine ⟨rest, tokens, ?_, ?_⟩
    · rw [left, left, tokens]
      rfl
    · rw [followed_tail tokens, tokens]
      rfl
  · rcases real with other | other <;> exact absurd rfl other

end ParserState

namespace Parser

variable {α β σ : Type}

section

variable (strict : Prop) (tail : Option Sequel)

/-- What two steps from one state come to, the second with something after the end of the text. They have the same
result, after at least `n` tokens, or the same fault; that is not a stall, if there is to be none, unless it is the
fault of the text. -/
def EndAlike (n : α → Nat) (s : ParserState) (first second : Except Fault (α × ParserState)) : Prop :=
  match first with
  | .ok (a, s') =>
    second = .ok (a, s'.followed tail) ∧ s'.left + n a ≤ s.left ∧ s'.cursor.failure = s.cursor.failure
  | .error fault => second = .error fault ∧ (strict → fault.IsStall → s.cursor.failure = some fault)

/-- Two steps that end alike wherever fewer than `k` tokens are left. -/
def Alike (k : Nat) (n : α → Nat) (p q : Parser α) : Prop :=
  ∀ s : ParserState, s.left < k → s.EndsWith tail → EndAlike strict tail n s (p s) (q (s.followed tail))

/-- Two steps that end alike where a token comes next. -/
def AlikeAt (t : Token) (k : Nat) (n : α → Nat) (p q : Parser α) : Prop :=
  ∀ s : ParserState, s.left < k → s.EndsWith tail → s.cursor.peek = .ok t →
    EndAlike strict tail n s (p s) (q (s.followed tail))

/-- Bounds that do for fewer than `k` tokens. Equal ones do for any if loops may stall. -/
def Enough (k f g : Nat) : Prop := k ≤ f ∧ k ≤ g ∨ f = g ∧ ¬ strict

end

variable {strict : Prop} {tail : Option Sequel} {k f g : Nat} {n : α → Nat} {m : β → Nat}

theorem Enough.mono {j : Nat} (enough : Enough strict k f g) (fewer : j ≤ k) : Enough strict j f g :=
  enough.imp_left fun ⟨first, second⟩ => ⟨Nat.le_trans fewer first, Nat.le_trans fewer second⟩

theorem Enough.pred (enough : Enough strict (k + 1) (f + 1) (g + 1)) : Enough strict k f g :=
  enough.imp (fun ⟨first, second⟩ => ⟨Nat.le_of_succ_le_succ first, Nat.le_of_succ_le_succ second⟩)
    fun ⟨same, loose⟩ => ⟨Nat.succ.inj same, loose⟩

/-- What holds where no token is left, where loops may stall at once, and for one token more whenever it holds under
bounds less by one, holds under bounds that do. -/
theorem Enough.induction {P : Nat → Nat → Nat → Prop} (empty : ∀ f g, P 0 f g) (stalled : ¬ strict → ∀ k, P k 0 0)
    (step : ∀ k f g, Enough strict k f g → P k f g → P (k + 1) (f + 1) (g + 1)) (enough : Enough strict k f g) :
    P k f g := by
  induction f generalizing k g with
  | zero =>
    obtain ⟨none, -⟩ | ⟨rfl, loose⟩ := enough
    · rw [Nat.le_zero.mp none]
      exact empty 0 g
    · exact stalled loose k
  | succ f ih =>
    cases k with
    | zero => exact empty (f + 1) g
    | succ k =>
      cases g with
      | zero =>
        obtain ⟨-, none⟩ | ⟨same, -⟩ := enough
        · cases none
        · cases same
      | succ g => exact step k f g enough.pred (ih enough.pred)

theorem alike_zero {p q : Parser α} : Alike strict tail 0 n p q := fun _ fewer => absurd fewer (Nat.not_lt_zero _)

theorem pure_alike {a : α} (nothing : n a = 0) : Alike strict tail k n (pure a) (pure a) := by
  intro s _ _
  refine ⟨rfl, ?_, rfl⟩
  rw [nothing]
  exact Nat.le_refl _

theorem Alike.mono {p q : Parser α} {j : Nat} {l : α → Nat} (alike : Alike strict tail k n p q) (fewer : j ≤ k)
    (less : ∀ a, l a ≤ n a) : Alike strict tail j l p q := by
  intro s here ends
  have outcome := alike s (Nat.lt_of_lt_of_le here fewer) ends
  cases ran : p s with
  | error fault =>
    rw [ran] at outcome
    exact outcome
  | ok result =>
    rw [ran] at outcome
    exact ⟨outcome.1, Nat.le_trans (Nat.add_le_add_left (less _) _) outcome.2.1, outcome.2.2⟩

theorem Alike.bind {p q : Parser α} {first second : α → Parser β} (alike : Alike strict tail k n p q)
    (next : ∀ a, Alike strict tail (k - n a) (fun b => m b - n a) (first a) (second a)) :
    Alike strict tail k m (p >>= first) (q >>= second) := by
  intro s here ends
  have outcome := alike s here ends
  cases ran : p s with
  | error fault =>
    rw [ran] at outcome
    rw [bind_fault ran, bind_fault outcome.1]
    exact ⟨rfl, outcome.2⟩
  | ok result =>
    obtain ⟨a, s'⟩ := result
    rw [ran] at outcome
    obtain ⟨same, taken, failure⟩ := outcome
    rw [bind_eq ran, bind_eq same]
    have later := next a s' (by omega) fun some => failure.trans (ends some)
    cases goes : first a s' with
    | error fault =>
      rw [goes] at later
      exact ⟨later.1, fun strict stall => failure ▸ later.2 strict stall⟩
    | ok final =>
      rw [goes] at later
      obtain ⟨same', taken', failure'⟩ := later
      exact ⟨same', by dsimp only at taken'; omega, failure'.trans failure⟩

theorem Alike.map {p q : Parser α} {h : α → β} (alike : Alike strict tail k n p q) (less : ∀ a, m (h a) - n a = 0) :
    Alike strict tail k m (h <$> p) (h <$> q) :=
  alike.bind fun a => pure_alike (less a)

/-- Steps that end alike come to the same, but for what comes after the end. -/
theorem EndAlike.eq_map {s : ParserState} {first second : Except Fault (α × ParserState)}
    (alike : EndAlike strict tail n s first second) : second = first.map fun r => (r.1, r.2.followed tail) := by
  cases first with
  | error fault => exact alike.1
  | ok result => exact alike.1

theorem faultAt_alike {place : Position} {cause : SyntaxError} (other : ¬ (⟨place, cause⟩ : Fault).IsStall) :
    Alike strict tail k n (faultAt place cause : Parser α) (faultAt place cause) :=
  fun _ _ _ => ⟨rfl, fun _ stall => absurd stall other⟩

/-- Two steps that come upon the fault of the text end alike. -/
theorem endAlike_fault {s : ParserState} {p q : Parser α} {fault : Fault} (failed : s.cursor.failure = some fault)
    (first : p s = .error fault) (second : q (s.followed tail) = .error fault) :
    EndAlike strict tail n s (p s) (q (s.followed tail)) := by
  rw [first, second]
  exact ⟨rfl, fun _ _ => failed⟩

theorem peek_alike : Alike strict tail k (fun _ => 0) peek peek := by
  intro s _ ends
  have same := ParserState.followed_peek ends
  cases shown : s.cursor.peek with
  | error fault =>
    exact endAlike_fault (ParserState.peek_faults shown) (peek_fault shown) (peek_fault (same.trans shown))
  | ok t =>
    rw [peek_of shown, peek_of (same.trans shown)]
    exact ⟨rfl, Nat.le_refl _, rfl⟩

theorem sees_alike (kind : TokenKind) : Alike strict tail k (fun _ => 0) (sees kind) (sees kind) :=
  peek_alike.bind fun _ => pure_alike rfl

theorem unexpected_alike {what : String} (other : what ≠ "a token") :
    Alike strict tail k n (unexpected what : Parser α) (unexpected what) := by
  refine peek_alike.bind fun t => faultAt_alike ?_
  rintro ⟨_, same⟩
  cases same
  exact other rfl

theorem exhausted_alike (loose : ¬ strict) : Alike strict tail k n (exhausted : Parser α) exhausted :=
  peek_alike.bind fun _ _ _ _ => ⟨rfl, fun strict => absurd strict loose⟩

/-- How many tokens are taken at least, where one may be taken. -/
def taken : Option α → Nat
  | some _ => 1
  | none => 0

theorem accept_alike {kind : TokenKind} (real : kind ≠ .endOfInput) :
    Alike strict tail k taken (accept kind) (accept kind) := by
  intro s fewer ends
  have same := ParserState.followed_peek ends
  cases shown : s.cursor.peek with
  | error fault =>
    have unseen {t : ParserState} (failed : t.cursor.peek = .error fault) : accept kind t = .error fault :=
      bind_fault (bind_fault (peek_fault failed))
    exact endAlike_fault (ParserState.peek_faults shown) (unseen shown) (unseen (same.trans shown))
  | ok t =>
    rw [accept_of shown, accept_of (same.trans shown)]
    by_cases here : t.kind = kind
    · obtain ⟨rest, tokens, fewer, after⟩ := ParserState.past_next tail shown (.inl (here ▸ real))
      rw [if_pos here, if_pos here, after]
      exact ⟨rfl, Nat.le_of_eq fewer, rfl⟩
    · rw [if_neg here, if_neg here]
      exact ⟨rfl, Nat.le_refl _, rfl⟩

theorem acceptTwo_alike (first second : TokenKind) (real : first ≠ .endOfInput) (other : second ≠ .endOfInput) :
    Alike strict tail k taken (acceptTwo first second) (acceptTwo first second) := by
  intro s fewer ends
  have same := ParserState.followed_peek ends
  cases shown : s.cursor.peek with
  | error fault =>
    have unseen {t : ParserState} (failed : t.cursor.peek = .error fault) : acceptTwo first second t = .error fault :=
      bind_fault (peek_fault failed)
    exact endAlike_fault (ParserState.peek_faults shown) (unseen shown) (unseen (same.trans shown))
  | ok t =>
    rcases ParserState.peek_shows shown with ⟨rest, tokens⟩ | ⟨tokens, rfl⟩
    · have same' := ParserState.followed_peekSecond ends tokens
      cases shown' : s.cursor.peekSecond with
      | error fault =>
        have unseen {u : ParserState} (seen : u.cursor.peek = .ok t) (failed : u.cursor.peekSecond = .error fault) :
            acceptTwo first second u = .error fault :=
          (bind_eq (peek_of seen)).trans (bind_fault (peekSecond_fault failed))
        exact endAlike_fault (ParserState.peekSecond_faults shown') (unseen shown shown')
          (unseen (same.trans shown) (same'.trans shown'))
      | ok u =>
        rw [acceptTwo_of shown shown', acceptTwo_of (same.trans shown) (same'.trans shown')]
        by_cases both : t.kind = first ∧ u.kind = second
        · obtain ⟨more, tokens', -⟩ :=
            ParserState.past_next none (peek_past_tail shown') (.inl (both.2 ▸ other))
          rw [tokens] at tokens'
          cases tokens'
          rw [if_pos both, if_pos both, ParserState.followed_tail_tail tokens, tokens]
          refine ⟨rfl, ?_, rfl⟩
          rw [ParserState.left, ParserState.left, tokens]
          exact Nat.le_succ _
        · rw [if_neg both, if_neg both]
          exact ⟨rfl, Nat.le_refl _, rfl⟩
    · -- The end token is not accepted, whatever comes after it.
      obtain ⟨u, shown'⟩ := ParserState.followed_peekSecond_end none shown tokens
      obtain ⟨v, shown''⟩ := ParserState.followed_peekSecond_end tail shown tokens
      rw [acceptTwo_of shown shown', acceptTwo_of (same.trans shown) shown'', if_neg fun both => real both.1.symm,
        if_neg fun both => real both.1.symm]
      exact ⟨rfl, Nat.le_refl _, rfl⟩

theorem expect_alike (kind : TokenKind) (what : String) (real : kind ≠ .endOfInput) (other : what ≠ "a token") :
    Alike strict tail k (fun _ => 1) (expect kind what) (expect kind what) := by
  refine (accept_alike real).bind fun found => ?_
  cases found with
  | some t => exact pure_alike rfl
  | none => exact unexpected_alike other

theorem acceptSymbol_alike (symbol : Symbol) :
    Alike strict tail k taken (acceptSymbol symbol) (acceptSymbol symbol) :=
  accept_alike nofun

theorem acceptWord_alike (word : Keyword) : Alike strict tail k taken (acceptWord word) (acceptWord word) :=
  accept_alike nofun

theorem expectSymbol_alike (symbol : Symbol) :
    Alike strict tail k (fun _ => 1) (expectSymbol symbol) (expectSymbol symbol) :=
  expect_alike _ _ nofun (by cases symbol <;> decide)

/-- A choice by whether a symbol comes next. -/
theorem ifSymbol_alike (symbol : Symbol) {p q p' q' : Parser β}
    (accepted : Alike strict tail (k - 1) (fun b => m b - 1) p q) (other : Alike strict tail k m p' q') :
    Alike strict tail k m (do if (← acceptSymbol symbol).isSome then p else p')
      (do if (← acceptSymbol symbol).isSome then q else q') := by
  refine (acceptSymbol_alike symbol).bind fun found => ?_
  cases found with
  | some t => exact accepted
  | none => exact other

/-- A choice by whether a word comes next. -/
theorem ifWord_alike (word : Keyword) {p q p' q' : Parser β}
    (accepted : Alike strict tail (k - 1) (fun b => m b - 1) p q) (other : Alike strict tail k m p' q') :
    Alike strict tail k m (do if (← acceptWord word).isSome then p else p')
      (do if (← acceptWord word).isSome then q else q') := by
  refine (acceptWord_alike word).bind fun found => ?_
  cases found with
  | some t => exact accepted
  | none => exact other

theorem acceptAny_alike (choices : List (Symbol × α)) :
    Alike strict tail k taken (acceptAny choices) (acceptAny choices) := by
  induction choices with
  | nil => exact pure_alike rfl
  | cons choice rest ih =>
    refine (acceptSymbol_alike choice.1).bind fun found => ?_
    cases found with
    | some t => exact pure_alike rfl
    | none => exact ih

/-- A step that goes on by the next token. -/
theorem peeked_alike {p q : Token → Parser α} (next : ∀ t, AlikeAt strict tail t k n (p t) (q t)) :
    Alike strict tail k n (peek >>= p) (peek >>= q) := by
  intro s fewer ends
  have same := ParserState.followed_peek ends
  cases shown : s.cursor.peek with
  | error fault =>
    exact endAlike_fault (ParserState.peek_faults shown) (bind_fault (peek_fault shown))
      (bind_fault (peek_fault (same.trans shown)))
  | ok t =>
    rw [bind_eq (peek_of shown), bind_eq (peek_of (same.trans shown))]
    exact next t s fewer ends shown

theorem Alike.here {p q : Parser α} (alike : Alike strict tail k n p q) (t : Token) :
    AlikeAt strict tail t k n p q :=
  fun s fewer ends _ => alike s fewer ends

/-- Taking a token that has been looked at. -/
theorem advance_alikeAt {p q : Parser α} {t : Token} (real : t.kind ≠ .endOfInput ∨ t.literal ≠ none)
    (rest : Alike strict tail (k - 1) (fun a => n a - 1) p q) :
    AlikeAt strict tail t k n (advance >>= fun _ => p) (advance >>= fun _ => q) := by
  intro s fewer ends shown
  obtain ⟨-, -, once, after⟩ := ParserState.past_next tail shown real
  rw [bind_eq (advance_of shown), bind_eq (advance_of ((ParserState.followed_peek ends).trans shown)), after]
  have later := rest (s.past s.cursor.tokens.tail) (by omega) ends
  cases goes : p (s.past s.cursor.tokens.tail) with
  | error fault =>
    rw [goes] at later
    exact later
  | ok result =>
    rw [goes] at later
    obtain ⟨same, taken, failure⟩ := later
    exact ⟨same, by dsimp only at taken; omega, failure⟩

/-- How many tokens a round takes at least: one if another round comes after it. -/
def again : σ ⊕ α → Nat
  | .inl _ => 1
  | .inr _ => 0

theorem rounds_alike {round round' : σ → Parser (σ ⊕ α)} (enough : Enough strict k f g)
    (each : ∀ a, Alike strict tail k again (round a) (round' a)) (a : σ) :
    Alike strict tail k (fun _ => 0) (rounds round f a) (rounds round' g a) := by
  refine enough.induction (P := fun k f g => (∀ a, Alike strict tail k again (round a) (round' a)) →
    ∀ a, Alike strict tail k (fun _ => 0) (rounds round f a) (rounds round' g a)) ?empty ?stalled ?step each a
  case empty => exact fun _ _ _ _ => alike_zero
  case stalled => exact fun loose _ _ _ => exhausted_alike loose
  case step =>
    intro k f g _ ih each a
    refine (each a).bind fun result => ?_
    cases result with
    | inl a => exact ih (fun a => (each a).mono (Nat.le_succ k) fun _ => Nat.le_refl _) a
    | inr b => exact pure_alike rfl

/-- A round of reading elements with commas between them. -/
def elementRound (element : List α → Parser α) (close : Symbol) (before : List α) : Parser (List α ⊕ List α) := do
  let a ← element before
  if (← acceptSymbol .comma).isSome then pure (.inl (a :: before))
  else
    let _ ← expectSymbol close
    pure (.inr (a :: before).reverse)

theorem separated_eq (element : List α → Parser α) (close : Symbol) (fuel : Nat) : separated element close fuel = (do
    if (← acceptSymbol close).isSome then pure [] else rounds (elementRound element close) fuel []) := rfl

theorem elementRound_alike {element element' : List α → Parser α} (close : Symbol) {before : List α}
    (each : Alike strict tail k (fun _ => 0) (element before) (element' before)) :
    Alike strict tail k again (elementRound element close before) (elementRound element' close before) := by
  refine each.bind fun a => ifSymbol_alike .comma ?_ ?_
  · exact pure_alike rfl
  · exact (expectSymbol_alike close).bind fun _ => pure_alike rfl

theorem separated_alike {element element' : List α → Parser α} (close : Symbol) (enough : Enough strict k f g)
    (each : ∀ before, Alike strict tail k (fun _ => 0) (element before) (element' before)) :
    Alike strict tail k (fun _ => 0) (separated element close f) (separated element' close g) := by
  rw [separated_eq, separated_eq]
  refine ifSymbol_alike close (pure_alike rfl) ?_
  exact rounds_alike enough (fun before => elementRound_alike close (each before)) []

/-- A round of reading operands with operators between them. -/
def operandRound (operators : List (Symbol × (Position → Expr → Expr → Expr))) (operand : Parser Expr) (left : Expr) :
    Parser (Expr ⊕ Expr) := do
  match ← acceptAny operators with
  | some (t, build) =>
    let right ← operand
    pure (.inl (build t.position left right))
  | none => pure (.inr left)

variable {p q : Parser Expr}

theorem leftToRight_eq (operators : List (Symbol × (Position → Expr → Expr → Expr))) (operand : Parser Expr)
    (fuel : Nat) :
    leftToRight operators operand fuel = operand >>= rounds (operandRound operators operand) fuel := rfl

theorem operandRound_alike (operators : List (Symbol × (Position → Expr → Expr → Expr))) (left : Expr)
    (operand : Alike strict tail k (fun _ => 0) p q) :
    Alike strict tail k again (operandRound operators p left) (operandRound operators q left) := by
  refine (acceptAny_alike operators).bind fun found => ?_
  cases found with
  | some found =>
    refine (operand.mono (Nat.sub_le _ _) fun _ => Nat.zero_le _).bind fun right => pure_alike rfl
  | none => exact pure_alike rfl

theorem leftToRight_alike {c : Nat} (operators : List (Symbol × (Position → Expr → Expr → Expr)))
    (enough : Enough strict k f g) (operand : Alike strict tail k (fun _ => c) p q) :
    Alike strict tail k (fun _ => c) (leftToRight operators p f) (leftToRight operators q g) := by
  rw [leftToRight_eq, leftToRight_eq]
  refine operand.bind fun first => ?_
  have later := operand.mono (Nat.sub_le k c) fun _ => Nat.zero_le _
  refine (rounds_alike (enough.mono (Nat.sub_le k c)) (fun left => operandRound_alike operators left later)
    first).mono (Nat.le_refl _) fun _ => Nat.le_of_eq (Nat.sub_self c)

theorem disjunction_alike {c : Nat} (enough : Enough strict k f g) (operand : Alike strict tail k (fun _ => c) p q) :
    Alike strict tail k (fun _ => c) (disjunction p f) (disjunction q g) := by
  unfold disjunction
  repeat' first
    | exact operand
    | apply leftToRight_alike _ enough

theorem fromOperand_alike {c : Nat} (enough : Enough strict k f g) (operand : Alike strict tail k (fun _ => c) p q) :
    Alike strict tail k (fun _ => c) (fromOperand p f) (fromOperand q g) := by
  have second := (disjunction_alike enough operand).mono (Nat.sub_le k c) fun _ => Nat.zero_le _
  refine (disjunction_alike enough operand).bind fun first => (acceptSymbol_alike .colon).bind fun found => ?_
  cases found with
  | some colon =>
    refine (second.mono (Nat.sub_le _ _) fun _ => Nat.le_refl _).bind fun second => pure_alike ?_
    omega
  | none => exact pure_alike (by dsimp only [taken]; omega)

/-- An argument of a call, with its keyword if it has one. -/
def argument (expression : Parser Expr) : Parser (Option String × Expr) := do
  let tag ← acceptTwo .ident (.symbol .assign)
  let value ← expression
  pure (tag.map (·.1.text), value)

theorem arguments_eq (expression : Parser Expr) (fuel : Nat) : arguments expression fuel = (do
    let args ← separated (fun _ => argument expression) .closeParen fuel
    pure args.unzip) := rfl

theorem argument_alike (expression : Alike strict tail k (fun _ => 0) p q) :
    Alike strict tail k (fun _ => 0) (argument p) (argument q) := by
  refine (acceptTwo_alike .ident (.symbol .assign) nofun nofun).bind fun tag => ?_
  refine (expression.mono (Nat.sub_le _ _) fun _ => Nat.le_refl _).bind fun value => pure_alike ?_
  omega

theorem arguments_alike (enough : Enough strict k f g) (expression : Alike strict tail k (fun _ => 0) p q) :
    Alike strict tail k (fun _ => 0) (arguments p f) (arguments q g) := by
  rw [arguments_eq, arguments_eq]
  exact (separated_alike _ enough fun _ => argument_alike expression).bind fun args => pure_alike rfl

/-- A primary takes a token before it reads expressions. -/
theorem primary_alike (enough : Enough strict k f g) (expression : Alike strict tail k (fun _ => 0) p q) :
    Alike strict tail (k + 1) (fun _ => 1) (primary p f) (primary q g) := by
  have items (close : Symbol) : Alike strict tail k (fun _ => 0) (separated (fun _ => p) close f)
      (separated (fun _ => q) close g) := separated_alike close enough fun _ => expression
  refine peeked_alike fun t => ?_
  split
  · next literal => exact advance_alikeAt (.inr (by simp [literal])) (pure_alike rfl)
  · next ident =>
    refine advance_alikeAt (.inl (by simp [ident])) (ifSymbol_alike .openParen ?_ (pure_alike rfl))
    exact ((arguments_alike enough expression).mono (Nat.sub_le _ _) fun _ => Nat.le_refl _).bind fun args =>
      pure_alike rfl
  · next paren =>
    refine advance_alikeAt (.inl (by simp [paren])) (expression.bind fun inner => ?_)
    exact (expectSymbol_alike .closeParen).bind fun _ => pure_alike rfl
  · next bracket =>
    exact advance_alikeAt (.inl (by simp [bracket])) ((items .closeBracket).bind fun items => pure_alike rfl)
  · next brace =>
    exact advance_alikeAt (.inl (by simp [brace])) ((items .closeBrace).bind fun entries => pure_alike rfl)
  · exact (unexpected_alike (by decide)).here t

/-- A round of reading what comes after a primary. -/
def postfixRound (expression : Parser Expr) (fuel : Nat) (e : Expr) : Parser (Expr ⊕ Expr) := do
  if (← acceptSymbol .dot).isSome then
    let name ← expect .ident "member name"
    if (← acceptSymbol .openParen).isSome then
      let (keywords, args) ← arguments expression fuel
      pure (.inl (.send e name.text keywords args name.position))
    else pure (.inl (.member e name.text name.position))
  else
    match ← acceptSymbol .openBracket with
    | some bracket =>
      let key ← expression
      let _ ← expectSymbol .closeBracket
      pure (.inl (.index e key bracket.position))
    | none => pure (.inr e)

theorem postfixed_eq (expression : Parser Expr) (fuel : Nat) : postfixed expression fuel = (do
    let first ← primary expression fuel
    rounds (postfixRound expression fuel) fuel first) := rfl

theorem postfixRound_alike (enough : Enough strict k f g) (expression : Alike strict tail k (fun _ => 0) p q)
    (e : Expr) : Alike strict tail k again (postfixRound p f e) (postfixRound q g e) := by
  refine ifSymbol_alike .dot ?_ ?_
  · refine (expect_alike .ident "member name" nofun (by decide)).bind fun name => ifSymbol_alike .openParen ?_ ?_
    · have args := (arguments_alike enough expression).mono (j := k - 1 - 1 - 1) (by omega) fun _ => Nat.le_refl _
      exact args.bind fun args => pure_alike rfl
    · exact pure_alike rfl
  · refine (acceptSymbol_alike .openBracket).bind fun found => ?_
    cases found with
    | some bracket =>
      refine (expression.mono (Nat.sub_le _ _) fun _ => Nat.le_refl _).bind fun key => ?_
      exact (expectSymbol_alike .closeBracket).bind fun _ => pure_alike rfl
    | none => exact pure_alike rfl

theorem postfixed_alike (enough : Enough strict k f g) (expression : Alike strict tail k (fun _ => 0) p q) :
    Alike strict tail (k + 1) (fun _ => 1) (postfixed p f) (postfixed q g) := by
  rw [postfixed_eq, postfixed_eq]
  refine (primary_alike enough expression).bind fun first => ?_
  exact rounds_alike enough (fun e => postfixRound_alike enough expression e) first

/-- Unary operators before a primary, where another unary operand is read by `self`. -/
def unaryBody (self : Parser Expr) (fuel : Nat) : Parser Expr := do
  match ← acceptAny [(.bang, UnaryOp.not), (.minus, UnaryOp.neg)] with
  | some (t, op) =>
    let operand ← self
    pure (.unary op operand t.position)
  | none => postfixed (fromOperand self fuel) fuel

theorem unary_succ (fuel : Nat) : unary (fuel + 1) = unaryBody (unary fuel) fuel := rfl

theorem unaryBody_alike (enough : Enough strict k f g) (self : Alike strict tail k (fun _ => 0) p q) :
    Alike strict tail (k + 1) (fun _ => 1) (unaryBody p f) (unaryBody q g) := by
  refine (acceptAny_alike _).bind fun found => ?_
  cases found with
  | some found => exact self.bind fun operand => pure_alike rfl
  | none => exact postfixed_alike enough (fromOperand_alike enough self)

theorem unary_alike (enough : Enough strict k f g) : Alike strict tail k (fun _ => 1) (unary f) (unary g) := by
  refine enough.induction (P := fun k f g => Alike strict tail k (fun _ => 1) (unary f) (unary g)) ?empty ?stalled ?step
  case empty => exact fun _ _ => alike_zero
  case stalled => exact fun loose _ => exhausted_alike loose
  case step =>
    intro k f g enough ih
    rw [unary_succ, unary_succ]
    exact unaryBody_alike enough (ih.mono (Nat.le_refl k) fun _ => Nat.zero_le 1)

theorem expression_alike (enough : Enough strict k f g) :
    Alike strict tail k (fun _ => 1) (expression f) (expression g) :=
  fromOperand_alike enough (unary_alike enough)

/-- A step that goes on by the state, where what comes after the end makes no difference. -/
theorem get_alike {p q : ParserState → Parser α} (next : ∀ s, Alike strict tail k n (p s) (q (s.followed tail))) :
    Alike strict tail k n (get >>= p) (get >>= q) := by
  intro s fewer ends
  have read (t : ParserState) : (get : Parser ParserState) t = .ok (t, t) := rfl
  rw [bind_eq (read s), bind_eq (read (s.followed tail))]
  exact next s s fewer ends

/-- A change to the state that leaves the tokens alone. -/
theorem modify_alike {change : ParserState → ParserState} (same : ∀ s, (change s).cursor = s.cursor)
    (commutes : ∀ s, change (s.followed tail) = (change s).followed tail) :
    Alike strict tail k (fun _ => 0) (modify change : Parser Unit) (modify change) := by
  intro s _ _
  have ran (t : ParserState) : (modify change : Parser Unit) t = .ok ((), change t) := rfl
  rw [ran, ran, commutes]
  refine ⟨rfl, ?_, by rw [same]⟩
  rw [ParserState.left, same]
  exact Nat.le_refl _

theorem deeper_alike : Alike strict tail k (fun _ => 0)
    (modify fun s => { s with depth := s.depth + 1 } : Parser Unit)
    (modify fun s => { s with depth := s.depth + 1 }) :=
  modify_alike (fun _ => rfl) fun s => by cases tail <;> rfl

theorem shallower_alike : Alike strict tail k (fun _ => 0)
    (modify fun s => { s with depth := s.depth - 1 } : Parser Unit)
    (modify fun s => { s with depth := s.depth - 1 }) :=
  modify_alike (fun _ => rfl) fun s => by cases tail <;> rfl

theorem declare_alike (name : String) (place : Position) :
    Alike strict tail k (fun _ => 0) (declare name place) (declare name place) := by
  intro s _ _
  have run (t : ParserState) : declare name place t = (if name ∈ t.classes then
      faultAt place (.classShadowsName name) else set { t with topLevel := name :: t.topLevel } : Parser Unit) t := rfl
  rw [run, run, ParserState.followed_classes]
  by_cases shadows : name ∈ s.classes
  · rw [if_pos shadows, if_pos shadows]
    exact ⟨rfl, fun _ ⟨_, stall⟩ => by cases stall⟩
  · rw [if_neg shadows, if_neg shadows]
    refine ⟨?_, Nat.le_refl _, rfl⟩
    cases tail <;> rfl

theorem condition_alike (enough : Enough strict k f g) :
    Alike strict tail k (fun _ => 1) (condition f) (condition g) := by
  refine (expectSymbol_alike .openParen).bind fun _ => ?_
  refine (expression_alike (enough.mono (Nat.sub_le k 1))).bind fun e => ?_
  exact (expectSymbol_alike .closeParen).bind fun _ => pure_alike rfl

variable {p q : Parser Stmt}

/-- A round of reading statements in braces. -/
def statementRound (statement : Parser Stmt) (before : List Stmt) : Parser (List Stmt ⊕ List Stmt) := do
  if (← acceptSymbol .closeBrace).isSome then pure (.inr before.reverse)
  else if ← sees .endOfInput then unexpected "'\x7d'"
  else
    let s ← statement
    pure (.inl (s :: before))

theorem block_eq (statement : Parser Stmt) (fuel : Nat) : block statement fuel = (do
    let _ ← expectSymbol .openBrace
    rounds (statementRound statement) fuel []) := rfl

theorem statementRound_alike (statement : Alike strict tail k (fun _ => 1) p q) (before : List Stmt) :
    Alike strict tail k again (statementRound p before) (statementRound q before) := by
  refine ifSymbol_alike .closeBrace (pure_alike rfl) ?_
  refine (sees_alike .endOfInput).bind fun ended => ?_
  cases ended with
  | true => exact unexpected_alike (by decide)
  | false => exact statement.bind fun s => pure_alike rfl

theorem block_alike (enough : Enough strict k f g) (statement : Alike strict tail k (fun _ => 1) p q) :
    Alike strict tail k (fun _ => 1) (block p f) (block q g) := by
  rw [block_eq, block_eq]
  refine (expectSymbol_alike .openBrace).bind fun _ => ?_
  have later := statement.mono (Nat.sub_le k 1) fun _ => Nat.le_refl 1
  exact rounds_alike (enough.mono (Nat.sub_le k 1)) (statementRound_alike later) []

/-- The arms of a conditional after the first, where those after another one are read by `self`. -/
def otherwiseBody (condition : Parser Expr) (body : Parser (List Stmt)) (self : Parser Otherwise) :
    Parser Otherwise := do
  let another : Parser Otherwise := do
    let c ← condition
    let b ← body
    let rest ← self
    pure (.branch c b rest)
  if (← acceptWord .elifWord).isSome then another
  else if (← acceptWord .elseWord).isSome then
    if (← acceptWord .ifWord).isSome then another
    else .block <$> body
  else pure .nothing

theorem otherwise_succ (condition : Parser Expr) (body : Parser (List Stmt)) (fuel : Nat) :
    otherwise condition body (fuel + 1) = otherwiseBody condition body (otherwise condition body fuel) := rfl

section

variable {condition condition' : Parser Expr} {body body' : Parser (List Stmt)}

theorem otherwiseBody_alike {self self' : Parser Otherwise}
    (conditions : Alike strict tail k (fun _ => 0) condition condition')
    (bodies : Alike strict tail k (fun _ => 0) body body') (selves : Alike strict tail k (fun _ => 0) self self') :
    Alike strict tail (k + 1) (fun _ => 0) (otherwiseBody condition body self)
      (otherwiseBody condition' body' self') := by
  have another {j : Nat} (fewer : j ≤ k) : Alike strict tail j (fun _ => 0) (do
      let c ← condition
      let b ← body
      let rest ← self
      pure (Otherwise.branch c b rest)) (do
      let c ← condition'
      let b ← body'
      let rest ← self'
      pure (Otherwise.branch c b rest)) := by
    refine (conditions.mono fewer fun _ => Nat.le_refl _).bind fun c => ?_
    refine (bodies.mono fewer fun _ => Nat.le_refl _).bind fun b => ?_
    exact (selves.mono fewer fun _ => Nat.le_refl _).bind fun rest => pure_alike rfl
  refine ifWord_alike .elifWord (another (Nat.le_refl k)) ?_
  refine ifWord_alike .elseWord ?_ (pure_alike rfl)
  refine ifWord_alike .ifWord (another (Nat.sub_le k 1)) ?_
  exact bodies.map fun _ => rfl

theorem otherwise_alike (enough : Enough strict k f g)
    (conditions : Alike strict tail k (fun _ => 0) condition condition')
    (bodies : Alike strict tail k (fun _ => 0) body body') :
    Alike strict tail k (fun _ => 0) (otherwise condition body f) (otherwise condition' body' g) := by
  refine enough.induction (P := fun k f g => Alike strict tail k (fun _ => 0) condition condition' →
    Alike strict tail k (fun _ => 0) body body' →
    Alike strict tail k (fun _ => 0) (otherwise condition body f) (otherwise condition' body' g)) ?empty ?stalled ?step
    conditions bodies
  case empty => exact fun _ _ _ _ => alike_zero
  case stalled => exact fun loose _ _ _ => exhausted_alike loose
  case step =>
    intro k f g _ ih conditions bodies
    have conditions := conditions.mono (Nat.le_succ k) fun _ => Nat.le_refl _
    have bodies := bodies.mono (Nat.le_succ k) fun _ => Nat.le_refl _
    rw [otherwise_succ, otherwise_succ]
    exact otherwiseBody_alike conditions bodies (ih conditions bodies)

end

/-- The default value that a token stands for. -/
def defaultOf (parameter : String) (t : Token) : Parser Literal :=
  match t.literal with
  | some value => pure value
  | none => faultAt t.position (.nonLiteralDefault parameter)

theorem defaultValue_eq (parameter : String) : defaultValue parameter = advance >>= defaultOf parameter := rfl

/-- A default value takes the next token, and faults if that stands for the end. -/
theorem defaultValue_alike (parameter : String) :
    Alike strict tail k (fun _ => 0) (defaultValue parameter) (defaultValue parameter) := by
  rw [defaultValue_eq]
  intro s fewer ends
  have same := ParserState.followed_peek ends
  cases shown : s.cursor.peek with
  | error fault =>
    exact endAlike_fault (ParserState.peek_faults shown) (bind_fault (advance_fault shown))
      (bind_fault (advance_fault (same.trans shown)))
  | ok t =>
    rw [bind_eq (advance_of shown), bind_eq (advance_of (same.trans shown)), defaultOf]
    cases literal : t.literal with
    | none => exact ⟨rfl, fun _ ⟨_, stall⟩ => by cases stall⟩
    | some value =>
      obtain ⟨-, -, once, after⟩ := ParserState.past_next tail shown (.inr (by simp [literal]))
      rw [after]
      exact ⟨rfl, Nat.le_trans (Nat.le_succ _) (Nat.le_of_eq once), rfl⟩

theorem parameter_alike (before : List ParamTree) :
    Alike strict tail k (fun _ => 1) (parameter before) (parameter before) := by
  refine (expect_alike .ident "parameter name" nofun (by decide)).bind fun t => ?_
  split
  · exact faultAt_alike fun ⟨_, stall⟩ => by cases stall
  · refine ifSymbol_alike .assign ?_ (pure_alike rfl)
    exact (defaultValue_alike t.text).bind fun value => pure_alike rfl

theorem function_alike (place : Position) (enough : Enough strict k f g)
    (statement : Alike strict tail k (fun _ => 1) p q) :
    Alike strict tail k (fun _ => 1) (function place p f) (function place q g) := by
  refine (expect_alike .ident "function name" nofun (by decide)).bind fun name => ?_
  refine (expectSymbol_alike .openParen).bind fun _ => ?_
  refine (separated_alike .closeParen (enough.mono (by omega)) fun before =>
    (parameter_alike before).mono (Nat.le_refl _) fun _ => Nat.zero_le 1).bind fun params => ?_
  refine deeper_alike.bind fun _ => ?_
  refine (block_alike (enough.mono (by omega)) (statement.mono (by omega) fun _ => Nat.le_refl 1)).bind fun body => ?_
  exact shallower_alike.bind fun _ => pure_alike rfl

theorem assignment_alike (first : Token) (target : Expr) (place : Position) (enough : Enough strict k f g) :
    Alike strict tail k (fun _ => 1) (assignment first target place f) (assignment first target place g) := by
  refine (expression_alike enough).bind fun value => ?_
  cases target.target? with
  | none => exact faultAt_alike fun ⟨_, stall⟩ => by cases stall
  | some t =>
    have finish {j : Nat} : Alike strict tail j (fun _ => 0) (do
        let semicolon ← expectSymbol .semicolon
        pure (Stmt.assign ⟨first.position.line, semicolon.position.line⟩ t value place)) (do
        let semicolon ← expectSymbol .semicolon
        pure (Stmt.assign ⟨first.position.line, semicolon.position.line⟩ t value place)) :=
      (expectSymbol_alike .semicolon).bind fun _ => pure_alike rfl
    dsimp only
    split
    · refine get_alike fun s => ?_
      rw [ParserState.followed_depth]
      split
      · exact (declare_alike _ _).bind fun _ => finish
      · exact finish
    · exact finish

theorem simple_alike (first : Token) (enough : Enough strict k f g) :
    Alike strict tail k (fun _ => 1) (simple first f) (simple first g) := by
  refine ifWord_alike .returnWord ?_ ?_
  · refine (sees_alike _).bind fun ended => ?_
    have finish {j : Nat} (value : Option Expr) : Alike strict tail j (fun _ => 0) (do
        let semicolon ← expectSymbol .semicolon
        pure (Stmt.ret ⟨first.position.line, semicolon.position.line⟩ value)) (do
        let semicolon ← expectSymbol .semicolon
        pure (Stmt.ret ⟨first.position.line, semicolon.position.line⟩ value)) :=
      (expectSymbol_alike .semicolon).bind fun _ => pure_alike rfl
    cases ended with
    | true => exact finish none
    | false =>
      have value : Alike strict tail (k - 1) (fun _ => 1) (some <$> expression f) (some <$> expression g) :=
        (expression_alike (enough.mono (Nat.sub_le k 1))).map fun _ => rfl
      exact value.bind finish
  · refine (expression_alike enough).bind fun e => (acceptSymbol_alike .assign).bind fun sign => ?_
    cases sign with
    | some sign =>
      exact (assignment_alike first e sign.position (enough.mono (by omega))).mono (Nat.le_refl _)
        fun _ => Nat.zero_le 1
    | none => exact (expectSymbol_alike .semicolon).bind fun _ => pure_alike rfl

theorem forLoop_alike (place : Position) (enough : Enough strict k f g)
    (statement : Alike strict tail k (fun _ => 1) p q) :
    Alike strict tail k (fun _ => 1) (forLoop place p f) (forLoop place q g) := by
  refine (expectSymbol_alike .openParen).bind fun _ => ?_
  refine (expect_alike .ident "loop variable" nofun (by decide)).bind fun name => ?_
  refine (expectSymbol_alike .colon).bind fun _ => ?_
  refine (expression_alike (enough.mono (by omega))).bind fun items => ?_
  refine (expectSymbol_alike .closeParen).bind fun _ => ?_
  refine (block_alike (enough.mono (by omega)) (statement.mono (by omega) fun _ => Nat.le_refl 1)).bind fun body => ?_
  exact pure_alike rfl

theorem guarded_alike (line : Nat) (enough : Enough strict k f g)
    (statement : Alike strict tail k (fun _ => 1) p q) :
    Alike strict tail k (fun _ => 1) (guarded line p f) (guarded line q g) := by
  have blocks {j : Nat} (fewer : j ≤ k) : Alike strict tail j (fun _ => 1) (block p f) (block q g) :=
    block_alike (enough.mono fewer) (statement.mono fewer fun _ => Nat.le_refl 1)
  refine (blocks (Nat.le_refl k)).bind fun body => ?_
  refine (expect_alike (.keyword .catchWord) "'catch'" nofun (by decide)).bind fun _ => ?_
  have finish {j : Nat} (fewer : j ≤ k) (binding : Option String) : Alike strict tail j (fun _ => 0) (do
      let handler ← block p f
      pure (Stmt.guarded line body binding handler)) (do
      let handler ← block q g
      pure (Stmt.guarded line body binding handler)) :=
    (blocks fewer).bind fun handler => pure_alike rfl
  refine ifSymbol_alike .colon ?_ (finish (by omega) none)
  exact (expect_alike .ident "variable name" nofun (by decide)).bind fun name => finish (by omega) (some name.text)

/-- A statement, where the statements in its blocks are read by `self`. -/
def statementBody (self : Parser Stmt) (fuel : Nat) : Parser Stmt := do
  let first ← peek
  let place := first.position
  match first.kind with
  | .keyword .ifWord =>
    let _ ← advance
    let c ← condition fuel
    let body ← block self fuel
    let rest ← otherwise (condition fuel) (block self fuel) fuel
    pure (.branch place.line c body rest)
  | .keyword .whileWord =>
    let _ ← advance
    let c ← condition fuel
    let body ← block self fuel
    pure (.whileLoop place.line c body)
  | .keyword .forWord =>
    let _ ← advance
    forLoop place self fuel
  | .keyword .tryWord =>
    let _ ← advance
    guarded place.line self fuel
  | .keyword .defWord =>
    let _ ← advance
    let f ← function place self fuel
    pure (.define f.place f.name f.params f.body)
  | .keyword .staticWord => faultAt place .staticOutsideClass
  | _ => simple first fuel

theorem statement_succ (fuel : Nat) : statement (fuel + 1) = statementBody (statement fuel) fuel := rfl

theorem statementBody_alike (enough : Enough strict (k + 1) f g) (self : Alike strict tail k (fun _ => 1) p q) :
    Alike strict tail (k + 1) (fun _ => 1) (statementBody p f) (statementBody q g) := by
  have fewer := enough.mono (Nat.le_succ k)
  have blocks : Alike strict tail k (fun _ => 1) (block p f) (block q g) := block_alike fewer self
  refine peeked_alike fun t => ?_
  dsimp only
  split
  · next ifWord =>
    refine advance_alikeAt (.inl (by simp [ifWord])) ((condition_alike fewer).bind fun c => ?_)
    refine (blocks.mono (Nat.sub_le k 1) fun _ => Nat.le_refl _).bind fun body => ?_
    have rest : Alike strict tail k (fun _ => 0) (otherwise (condition f) (block p f) f)
        (otherwise (condition g) (block q g) g) :=
      otherwise_alike fewer ((condition_alike fewer).mono (Nat.le_refl k) fun _ => Nat.zero_le 1)
        (blocks.mono (Nat.le_refl k) fun _ => Nat.zero_le 1)
    exact (rest.mono (by omega) fun _ => Nat.le_refl _).bind fun rest => pure_alike rfl
  · next whileWord =>
    refine advance_alikeAt (.inl (by simp [whileWord])) ((condition_alike fewer).bind fun c => ?_)
    exact (blocks.mono (Nat.sub_le k 1) fun _ => Nat.le_refl _).bind fun body => pure_alike rfl
  · next forWord =>
    exact advance_alikeAt (.inl (by simp [forWord])) ((forLoop_alike _ fewer self).mono (Nat.le_refl _)
      fun _ => Nat.zero_le 1)
  · next tryWord =>
    exact advance_alikeAt (.inl (by simp [tryWord])) ((guarded_alike _ fewer self).mono (Nat.le_refl _)
      fun _ => Nat.zero_le 1)
  · next defWord =>
    exact advance_alikeAt (.inl (by simp [defWord])) ((function_alike _ fewer self).bind fun f => pure_alike rfl)
  · exact (faultAt_alike fun ⟨_, stall⟩ => by cases stall).here t
  · exact (simple_alike t enough).here t

theorem statement_alike (enough : Enough strict (k + 1) f g) :
    Alike strict tail k (fun _ => 1) (statement f) (statement g) := by
  -- Its bound is one more than that of the expressions in it, so the induction is one token ahead.
  refine enough.induction (P := fun k f g => Alike strict tail (k - 1) (fun _ => 1) (statement f) (statement g))
    ?empty ?stalled ?step
  case empty => exact fun _ _ => alike_zero
  case stalled => exact fun loose _ => exhausted_alike loose
  case step =>
    intro k f g enough ih
    cases k with
    | zero => exact alike_zero
    | succ k =>
      rw [statement_succ, statement_succ]
      exact statementBody_alike enough ih

theorem classMember_alike (enough : Enough strict (k + 1) f g) :
    Alike strict tail k (fun _ => 1) (classMember f) (classMember g) := by
  have functions (place : Position) : Alike strict tail k (fun _ => 1) (function place (statement f) f)
      (function place (statement g) g) :=
    function_alike place (enough.mono (Nat.le_succ k)) (statement_alike enough)
  refine (acceptTwo_alike (.keyword .staticWord) (.keyword .defWord) nofun nofun).bind fun opening => ?_
  cases opening with
  | some opening => exact ((functions _).mono (Nat.sub_le k 1) fun _ => Nat.le_refl 1).map fun _ => rfl
  | none =>
  refine (acceptWord_alike .staticWord).bind fun opening => ?_
  cases opening with
  | some opening =>
    refine (expect_alike .ident "static member name" nofun (by decide)).bind fun name => ?_
    refine (expectSymbol_alike .assign).bind fun _ => ?_
    refine (expression_alike (enough.mono (by omega))).bind fun value => ?_
    exact (expectSymbol_alike .semicolon).bind fun _ => pure_alike rfl
  | none =>
  refine (acceptWord_alike .defWord).bind fun opening => ?_
  cases opening with
  | some opening => exact ((functions _).mono (Nat.sub_le k 1) fun _ => Nat.le_refl 1).map fun _ => rfl
  | none => exact unexpected_alike (by decide)

/-- A round of reading the members of a class. -/
def memberRound (fuel : Nat) (before : List MemberTree) : Parser (List MemberTree ⊕ List MemberTree) := do
  if (← acceptSymbol .closeBrace).isSome then pure (.inr before.reverse)
  else
    let m ← classMember fuel
    pure (.inl (m :: before))

theorem classDef_eq (line fuel : Nat) : classDef line fuel = (do
    let name ← expect .ident "class name"
    let s ← get
    if name.text ∈ s.topLevel ∨ name.text ∈ s.classes then
      faultAt name.position (.classShadowsName name.text)
    else
      let _ ← expectSymbol .openBrace
      let members ← rounds (memberRound fuel) fuel []
      modify fun s => { s with classes := name.text :: s.classes }
      pure ⟨line, name.text, members⟩) := rfl

theorem memberRound_alike (enough : Enough strict (k + 1) f g) (before : List MemberTree) :
    Alike strict tail k again (memberRound f before) (memberRound g before) :=
  ifSymbol_alike .closeBrace (pure_alike rfl) ((classMember_alike enough).bind fun _ => pure_alike rfl)

theorem classDef_alike (line : Nat) (enough : Enough strict (k + 1) f g) :
    Alike strict tail k (fun _ => 1) (classDef line f) (classDef line g) := by
  rw [classDef_eq, classDef_eq]
  refine (expect_alike .ident "class name" nofun (by decide)).bind fun name => get_alike fun s => ?_
  rw [ParserState.followed_topLevel, ParserState.followed_classes]
  split
  · exact faultAt_alike fun ⟨_, stall⟩ => by cases stall
  · refine (expectSymbol_alike .openBrace).bind fun _ => ?_
    have fewer : Enough strict (k - 1 - 1 + 1) f g := enough.mono (by omega)
    have members : Alike strict tail (k - 1 - 1) (fun _ => 0) (rounds (memberRound f) f [])
        (rounds (memberRound g) g []) :=
      rounds_alike (fewer.mono (Nat.le_succ _)) (memberRound_alike fewer) []
    have declared : Alike strict tail (k - 1 - 1) (fun _ => 0)
        (modify fun s => { s with classes := name.text :: s.classes } : Parser Unit)
        (modify fun s => { s with classes := name.text :: s.classes }) :=
      modify_alike (fun _ => rfl) fun s => by cases tail <;> rfl
    exact members.bind fun members => declared.bind fun _ => pure_alike rfl

theorem item_alike (enough : Enough strict (k + 1) f g) :
    Alike strict tail k (fun _ => 1) (item f) (item g) := by
  refine (acceptWord_alike .defWord).bind fun opening => ?_
  cases opening with
  | some opening =>
    have statements : Alike strict tail (k - 1) (fun _ => 1) (statement f) (statement g) :=
      statement_alike (enough.mono (by omega))
    refine (function_alike opening.position (enough.mono (by omega)) statements).bind fun f => ?_
    exact (declare_alike f.name opening.position).bind fun _ => pure_alike rfl
  | none =>
  refine (acceptWord_alike .classWord).bind fun opening => ?_
  cases opening with
  | some opening =>
    exact (classDef_alike opening.position.line (enough.mono (by dsimp only [taken]; omega))).map fun _ => rfl
  | none => exact (statement_alike enough).map fun _ => rfl

/-- A round of reading the items of a module. -/
def itemRound (fuel : Nat) (before : List Item) : Parser (List Item ⊕ List Item) := do
  if ← sees .endOfInput then pure (.inr before.reverse)
  else
    let i ← item fuel
    pure (.inl (i :: before))

theorem module_eq (fuel : Nat) : module fuel = (do
    let items ← rounds (itemRound fuel) fuel []
    let stop ← peek
    pure ⟨items, stop.position⟩) := rfl

theorem itemRound_alike (enough : Enough strict (k + 1) f g) (before : List Item) :
    Alike strict tail k again (itemRound f before) (itemRound g before) := by
  refine (sees_alike .endOfInput).bind fun ended => ?_
  cases ended with
  | true => exact pure_alike rfl
  | false => exact (item_alike enough).bind fun i => pure_alike rfl

theorem module_alike (enough : Enough strict (k + 1) f g) :
    Alike strict tail k (fun _ => 0) (module f) (module g) := by
  rw [module_eq, module_eq]
  refine (rounds_alike (enough.mono (Nat.le_succ k)) (itemRound_alike enough) []).bind fun items => ?_
  exact peek_alike.bind fun stop => pure_alike rfl

/-- Two steps that are the same wherever fewer than `k` tokens are left, and take at least `n` of them. -/
def SameBelow (k n : Nat) (p q : Parser α) : Prop := Alike False none k (fun _ => n) p q

/-- Each round takes a token if another one comes after it. -/
def Consumes (round : σ → Parser (σ ⊕ α)) : Prop :=
  ∀ a s b s', round a s = .ok (.inl b, s') → s'.left < s.left

theorem Consumes.of_alike {round : σ → Parser (σ ⊕ α)}
    (each : ∀ k a, Alike False none k again (round a) (round a)) : Consumes round := by
  intro a s b s' ran
  have outcome := each (s.left + 1) a s (Nat.lt_succ_self _) nofun
  rw [ran] at outcome
  exact outcome.2.1

/-- The operands of the binary operators: those of the strongest ones are unary, the others chains of stronger ones. -/
inductive IsOperand (fuel : Nat) : Parser Expr → Prop
  | unary : IsOperand fuel (unary fuel)
  | chain {operand : Parser Expr} (operators : List (Symbol × (Position → Expr → Expr → Expr)))
    (stronger : IsOperand fuel operand) : IsOperand fuel (leftToRight operators operand fuel)

theorem enough_self {fuel : Nat} : Enough False k fuel fuel := .inr ⟨rfl, not_false⟩

theorem IsOperand.alike {fuel : Nat} {operand : Parser Expr} (is : IsOperand fuel operand) :
    Alike False none k (fun _ => 1) operand operand := by
  induction is with
  | unary => exact unary_alike enough_self
  | chain operators _ ih => exact leftToRight_alike operators enough_self ih

/-- Parsing under a bound reads on: each round of a loop that has another one after it takes a token, and each
function that calls itself has taken one before it does, so that what it comes to depends only on what it would come
to with fewer tokens left. The rounds are those of `separated_eq`, `leftToRight_eq`, `postfixed_eq`, `block_eq`,
`classDef_eq` and `module_eq`, the bodies those of `unary_succ`, `statement_succ` and `otherwise_succ`. -/
structure ReadsOn (fuel : Nat) : Prop where
  parameters : Consumes (elementRound parameter .closeParen)
  arguments : Consumes (elementRound (fun _ => argument (expression fuel)) .closeParen)
  elements : ∀ close, Consumes (elementRound (fun _ => expression fuel) close)
  operands : ∀ operators operand, IsOperand fuel operand → Consumes (operandRound operators operand)
  postfixes : Consumes (postfixRound (expression fuel) fuel)
  statements : Consumes (statementRound (statement fuel))
  members : Consumes (memberRound fuel)
  items : Consumes (itemRound fuel)
  unaries : ∀ k p q, SameBelow k 1 p q → SameBelow (k + 1) 1 (unaryBody p fuel) (unaryBody q fuel)
  blocks : ∀ k p q, SameBelow k 1 p q → SameBelow (k + 1) 1 (statementBody p fuel) (statementBody q fuel)
  arms : ∀ k p q, SameBelow k 0 p q →
    SameBelow (k + 1) 0 (otherwiseBody (condition fuel) (block (statement fuel) fuel) p)
      (otherwiseBody (condition fuel) (block (statement fuel) fuel) q)

theorem readsOn (fuel : Nat) : ReadsOn fuel where
  parameters := .of_alike fun k before =>
    elementRound_alike .closeParen ((parameter_alike before).mono (Nat.le_refl k) fun _ => Nat.zero_le 1)
  arguments := .of_alike fun k _ => elementRound_alike .closeParen
    (argument_alike ((expression_alike enough_self).mono (Nat.le_refl k) fun _ => Nat.zero_le 1))
  elements close := .of_alike fun k _ => elementRound_alike close
    ((expression_alike enough_self).mono (Nat.le_refl k) fun _ => Nat.zero_le 1)
  operands operators _ is := .of_alike fun k left => operandRound_alike operators left
    (is.alike.mono (Nat.le_refl k) fun _ => Nat.zero_le 1)
  postfixes := .of_alike fun k e => postfixRound_alike enough_self
    ((expression_alike enough_self).mono (Nat.le_refl k) fun _ => Nat.zero_le 1) e
  statements := .of_alike fun _ before => statementRound_alike (statement_alike enough_self) before
  members := .of_alike fun _ before => memberRound_alike enough_self before
  items := .of_alike fun _ before => itemRound_alike enough_self before
  unaries k _ _ same := unaryBody_alike enough_self (same.mono (Nat.le_refl k) fun _ => Nat.zero_le 1)
  blocks _ _ _ same := statementBody_alike enough_self same
  arms k _ _ same := otherwiseBody_alike
    ((condition_alike enough_self).mono (Nat.le_refl k) fun _ => Nat.zero_le 1)
    ((block_alike enough_self (statement_alike enough_self)).mono (Nat.le_refl k) fun _ => Nat.zero_le 1) same

end Parser

/-- A stall is not what reading a token comes upon. -/
theorem Fault.IsStall.not_lexical {fault : Fault} (stall : fault.IsStall) : fault.cause.isLexical = false := by
  obtain ⟨found, same⟩ := stall
  rw [same]
  rfl

/-- How parsing a text goes under a bound that leaves room for more, when something may come after the end token. -/
def TokenStream.parse (stream : TokenStream) (more : Nat) (tail : Option Sequel) :
    Except Fault (ModuleTree × ParserState) :=
  Parser.module (stream.tokens.length + 2 + more) ((ParserState.ofStream stream).followed tail)

namespace TokenStream

variable {stream : TokenStream}

theorem parse_alike (tail : Option Sequel) (more : Nat) (ends : tail.isSome → stream.failure = none) :
    Parser.EndAlike True tail (fun _ => 0) (.ofStream stream) (stream.parse 0 none) (stream.parse more tail) := by
  have enough : Parser.Enough True (stream.tokens.length + 1 + 1) (stream.tokens.length + 2)
      (stream.tokens.length + 2 + more) := .inl ⟨Nat.le_refl _, Nat.le_add_right _ _⟩
  exact Parser.module_alike enough (.ofStream stream) (Nat.lt_succ_self _) ends

/-- More room makes no difference. -/
theorem parse_more (more : Nat) : stream.parse more none = stream.parse 0 none := by
  refine (parse_alike none more nofun).eq_map.trans ?_
  cases stream.parse 0 none <;> rfl

/-- Something after the end token makes no difference. -/
theorem parse_followed (whole : stream.failure = none) (sequel : Sequel) : stream.parse 0 (some sequel) =
    (stream.parse 0 none).map fun r => (r.1, r.2.followed (some sequel)) :=
  (parse_alike (some sequel) 0 fun _ => whole).eq_map

theorem ofSource_not_stalled {source : String} {fault : Fault}
    (failed : (ofSource source).parse 0 none = .error fault) : ¬ fault.IsStall := by
  intro stall
  have alike : Parser.EndAlike True none (fun _ => 0) (.ofStream (ofSource source)) ((ofSource source).parse 0 none)
      ((ofSource source).parse 0 none) := parse_alike none 0 nofun
  rw [failed] at alike
  have lexical := ofSource_lexical (alike.2 trivial stall)
  rw [stall.not_lexical] at lexical
  cases lexical

theorem ofSource_takes_all {source : String} {tree : ModuleTree} {s : ParserState}
    (parsed : (ofSource source).parse 0 none = .ok (tree, s)) :
    s.cursor.tokens = [] ∧ (ofSource source).failure = none := by
  have given := Parser.module_gives ((ofSource source).tokens.length + 2) _ (ofSource_lexed source)
  change Parser.module _ (.ofStream (ofSource source)) = _ at parsed
  rw [parsed] at given
  have spelled : ∀ t ∈ s.cursor.tokens, t.IsSpelled := fun t among =>
    ofSource_isSpelled source t (given.2.tokens.subset among)
  obtain ⟨ended, whole⟩ := Parser.module_ends parsed spelled
  exact ⟨ended, given.2.failure.symm.trans whole⟩

end TokenStream

/-- **Parsing ends.** A text is parsed as under any greater bound, and never stops because a bound is met. For each
round of a loop and each nesting takes a token. If parsing comes to a module, it has taken all tokens of the text, and
the text has no fault. And only the first end token matters, not what comes after it, whether parsing succeeds or not;
so no second one is ever taken. -/
theorem ModuleTree.ofSource_ends (source : String) :
    (∀ more, ModuleTree.ofSource source = ((TokenStream.ofSource source).parse more none).map Prod.fst) ∧
    (match (TokenStream.ofSource source).parse 0 none with
      | .ok (_, s) => s.cursor.tokens = [] ∧ (TokenStream.ofSource source).failure = none
      | .error fault => ¬ fault.IsStall) ∧
    ((TokenStream.ofSource source).failure = none → ∀ sequel,
      (TokenStream.ofSource source).parse 0 (some sequel) =
        ((TokenStream.ofSource source).parse 0 none).map fun r => (r.1, r.2.followed (some sequel))) ∧
    ∀ fuel, Parser.ReadsOn fuel := by
  constructor
  · intro more
    rw [TokenStream.parse_more]
    exact ModuleTree.ofSource_eq source
  constructor
  · cases parsed : (TokenStream.ofSource source).parse 0 none with
    | error fault => exact TokenStream.ofSource_not_stalled parsed
    | ok result => exact TokenStream.ofSource_takes_all parsed
  constructor
  · exact TokenStream.parse_followed
  · exact Parser.readsOn

end ScriptEngine
