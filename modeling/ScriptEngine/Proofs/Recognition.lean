import ScriptEngine.Proofs.ParserStates

/-! # What the parser reads is a module

Whatever a step of parsing reads before it yields its result stands in the grammar, and the conditions hold of
the clauses of it. `Reads` says so of one step; it is closed under sequencing and loops, and each step of the
parser has one lemma that names its rule. The conditions are met one clause after the other, in the order of the
source: the state of the parser says which names are declared so far.
-/

namespace ScriptEngine

namespace Parser

variable {α β σ : Type} {s : ParserState} {E : List Token → α → Prop} {R : List Token → List Clause → α → Prop}
  {S : List Token → List Clause → β → Prop}

theorem bind_eq_ok {p : Parser α} {f : α → Parser β} {r : β × ParserState} (done : (p >>= f) s = .ok r) :
    ∃ a s', p s = .ok (a, s') ∧ f a s' = .ok r := by
  change (p s >>= fun r => f r.1 r.2) = .ok r at done
  cases read : p s with
  | error fault =>
    rw [read] at done
    cases done
  | ok result =>
    rw [read] at done
    exact ⟨result.1, result.2, rfl, done⟩

/-- From a state, a step that yields a result has read tokens that stand in a relation to it, with clauses that
can stand there. -/
def ReadsAt (p : Parser α) (R : List Token → List Clause → α → Prop) (s : ParserState) : Prop :=
  ∀ a s', p s = .ok (a, s') → ∃ ts cs rest, s.cursor.tokens = ts ++ rest ∧ R ts cs a ∧ s.PermitsAll cs ∧
    s' = (s.meetAll cs).past rest

/-- A step reads such tokens from everywhere. -/
def Reads (p : Parser α) (R : List Token → List Clause → α → Prop) : Prop := ∀ s, s.IsWhole → ReadsAt p R s

/-- A relation in which tokens without clauses stand. -/
def Plain (E : List Token → α → Prop) : List Token → List Clause → α → Prop := fun ts cs a => cs = [] ∧ E ts a

theorem Reads.pure {a : α} (h : R [] [] a) : Reads (pure a) R := by
  rintro s whole b s' ⟨⟩
  exact ⟨[], [], s.cursor.tokens, rfl, h, trivial, rfl⟩

theorem ReadsAt.seq {p : Parser α} {f : α → Parser β} (first : ReadsAt p R s)
    (second : ∀ ts cs a rest, s.cursor.tokens = ts ++ rest → R ts cs a →
      ReadsAt (f a) (fun us ds b => S (ts ++ us) (cs ++ ds) b) ((s.meetAll cs).past rest)) :
    ReadsAt (p >>= f) S s := by
  intro b s'' done
  obtain ⟨a, s', read, done⟩ := bind_eq_ok done
  obtain ⟨ts, cs, rest, tokens, good, permits, rfl⟩ := first a s' read
  obtain ⟨us, ds, rest', tokens', good', permits', rfl⟩ := second ts cs a rest tokens good b s'' done
  refine ⟨ts ++ us, cs ++ ds, rest', ?_, good', ?_, ?_⟩
  · rw [tokens, List.append_assoc]
    exact congrArg (ts ++ ·) tokens'
  · exact ParserState.permitsAll_append.mpr ⟨permits, (ParserState.permitsAll_past _).mp permits'⟩
  · rw [ParserState.meetAll_past, ParserState.meetAll_append]
    rfl

theorem ReadsAt.bind {p : Parser α} {f : α → Parser β} (whole : s.IsWhole) (first : ReadsAt p R s)
    (second : ∀ ts cs a, R ts cs a → Reads (f a) fun us ds b => S (ts ++ us) (cs ++ ds) b) :
    ReadsAt (p >>= f) S s :=
  first.seq fun ts cs a rest tokens good => second ts cs a good _ (whole.onward rest _ tokens)

theorem Reads.bind {p : Parser α} {f : α → Parser β} (first : Reads p R)
    (second : ∀ ts cs a, R ts cs a → Reads (f a) fun us ds b => S (ts ++ us) (cs ++ ds) b) :
    Reads (p >>= f) S := fun s whole => (first s whole).bind whole second

/-- After tokens without clauses. -/
theorem Reads.after {p : Parser α} {f : α → Parser β} (first : Reads p (Plain E))
    (second : ∀ ts a, E ts a → Reads (f a) fun us cs b => S (ts ++ us) cs b) : Reads (p >>= f) S := by
  refine first.bind ?_
  rintro ts _ a ⟨rfl, good⟩
  exact second ts a good

theorem Reads.map {p : Parser α} {f : α → β} (first : Reads p R) (h : ∀ ts cs a, R ts cs a → S ts cs (f a)) :
    Reads (f <$> p) S :=
  first.bind fun ts cs a good => .pure (by simpa using h ts cs a good)

theorem ReadsAt.mono {T : List Token → List Clause → α → Prop} {p : Parser α} (reads : ReadsAt p R s)
    (h : ∀ ts cs a rest, s.cursor.tokens = ts ++ rest → R ts cs a → T ts cs a) : ReadsAt p T s := by
  intro a s' done
  obtain ⟨ts, cs, rest, tokens, good, permits, same⟩ := reads a s' done
  exact ⟨ts, cs, rest, tokens, h ts cs a rest tokens good, permits, same⟩

theorem Reads.mono {T : List Token → List Clause → α → Prop} {p : Parser α} (reads : Reads p R)
    (h : ∀ ts cs a, R ts cs a → T ts cs a) : Reads p T :=
  fun s whole => (reads s whole).mono fun ts cs a _ _ => h ts cs a

theorem faultAt_reads (place : Position) (cause : SyntaxError) : Reads (faultAt place cause : Parser α) R := by
  rintro s _ a s' ⟨⟩

/-- A step that only looks at what is to come. -/
theorem ReadsAt.look {p : Parser β} {f : β → Parser α} {b : β} (looks : p s = .ok (b, s))
    (onward : ReadsAt (f b) R s) : ReadsAt (p >>= f) R s := by
  intro a s' done
  obtain ⟨_, _, read, done⟩ := bind_eq_ok done
  cases looks.symm.trans read
  exact onward a s' done

/-- A step that reads the next token. -/
theorem ReadsAt.step {p : Parser β} {f : β → Parser α} {b : β}
    (steps : p s = .ok (b, s.past s.cursor.tokens.tail)) (more : s.next.kind ≠ .endOfInput)
    (onward : ReadsAt (f b) (fun us cs a => R (s.next :: us) cs a) (s.past s.cursor.tokens.tail)) :
    ReadsAt (p >>= f) R s := by
  intro a s' done
  obtain ⟨_, _, read, done⟩ := bind_eq_ok done
  cases steps.symm.trans read
  have tokens := ParserState.next_cons more
  obtain ⟨us, cs, rest, tokens', good, permits, same⟩ := onward a s' done
  refine ⟨s.next :: us, cs, rest, ?_, good, (ParserState.permitsAll_past _).mp permits, ?_⟩
  · rw [tokens]
    exact congrArg (s.next :: ·) tokens'
  · rw [same, ParserState.meetAll_past]
    rfl

/-- Accepting a token decides by the next one. -/
theorem ReadsAt.accept {k : TokenKind} {f : Option Token → Parser α} (whole : s.IsWhole) (real : k ≠ .endOfInput)
    (found : s.next.kind = k → ReadsAt (f (some s.next)) (fun us cs a => R (s.next :: us) cs a)
      (s.past s.cursor.tokens.tail))
    (other : s.next.kind ≠ k → ReadsAt (f none) R s) : ReadsAt (accept k >>= f) R s := by
  by_cases here : s.next.kind = k
  · refine .step (b := some s.next) ?_ (here ▸ real) (found here)
    rw [accept_eq whole, if_pos here]
  · refine .look (b := none) ?_ (other here)
    rw [accept_eq whole, if_neg here]

/-- What accepting a token reads: it or nothing. -/
inductive Accepted (k : TokenKind) : List Token → Option Token → Prop
  | found {t : Token} (kind : t.kind = k) : Accepted k [t] (some t)
  | other : Accepted k [] none

theorem accept_reads {k : TokenKind} (real : k ≠ .endOfInput) : Reads (accept k) (Plain (Accepted k)) := by
  intro s whole
  have same : accept k = accept k >>= fun found => pure found := (bind_pure _).symm
  rw [same]
  refine .accept whole real (fun here => ?_) fun _ => Reads.pure ⟨rfl, .other⟩ s whole
  exact Reads.pure ⟨rfl, .found here⟩ _ whole.past_tail

/-- What expecting a token reads. -/
inductive Expected (k : TokenKind) : List Token → Token → Prop
  | mk {t : Token} (kind : t.kind = k) : Expected k [t] t

theorem unexpected_reads (what : String) : Reads (unexpected what : Parser α) R :=
  fun s whole => .look (peek_eq whole) (faultAt_reads _ _ s whole)

theorem expect_reads {k : TokenKind} (real : k ≠ .endOfInput) (what : String) :
    Reads (expect k what) (Plain (Expected k)) := by
  refine (accept_reads real).after fun ts found read => ?_
  cases read with
  | found kind => exact .pure ⟨rfl, .mk kind⟩
  | other => exact unexpected_reads what

theorem acceptSymbol_reads (x : Symbol) : Reads (acceptSymbol x) (Plain (Accepted (.symbol x))) :=
  accept_reads nofun

theorem acceptWord_reads (k : Keyword) : Reads (acceptWord k) (Plain (Accepted (.keyword k))) :=
  accept_reads nofun

theorem expectSymbol_reads (x : Symbol) : Reads (expectSymbol x) (Plain (Expected (.symbol x))) :=
  expect_reads (k := .symbol x) nofun _

/-- What accepting one of some symbols reads: one of them or nothing. -/
inductive AcceptedAny (choices : List (Symbol × α)) : List Token → Option (Token × α) → Prop
  | found {t : Token} {x : Symbol} {a : α} (among : (x, a) ∈ choices) (kind : t.kind = .symbol x) :
      AcceptedAny choices [t] (some (t, a))
  | other : AcceptedAny choices [] none

theorem acceptAny_reads (choices : List (Symbol × α)) :
    Reads (acceptAny choices) (Plain (AcceptedAny choices)) := by
  induction choices with
  | nil => exact .pure ⟨rfl, .other⟩
  | cons choice others ih =>
    obtain ⟨x, a⟩ := choice
    refine (acceptSymbol_reads x).after fun ts found read => ?_
    cases read with
    | found kind => exact .pure ⟨rfl, .found List.mem_cons_self kind⟩
    | other =>
      refine ih.mono fun ts cs found good => ⟨good.1, ?_⟩
      cases good.2 with
      | found among kind => exact .found (List.mem_cons_of_mem _ among) kind
      | other => exact .other

/-- What accepting two tokens reads: both or nothing. -/
inductive AcceptedTwo (j k : TokenKind) : List Token → Option (Token × Token) → Prop
  | found {t u : Token} (first : t.kind = j) (second : u.kind = k) : AcceptedTwo j k [t, u] (some (t, u))
  | other : AcceptedTwo j k [] none

theorem acceptTwo_reads {j k : TokenKind} (real : j ≠ .endOfInput) (real' : k ≠ .endOfInput) :
    Reads (acceptTwo j k) (Plain (AcceptedTwo j k)) := by
  intro s whole
  refine .look (peek_eq whole) (.look (peekSecond_eq whole) ?_)
  split
  · next both =>
    obtain ⟨first, second⟩ := both
    have whole' := whole.past_tail
    refine .step (advance_eq whole) (first ▸ real) (.step (advance_eq whole') (second ▸ real') ?_)
    exact Reads.pure ⟨rfl, .found first second⟩ _ whole'.past_tail
  · exact Reads.pure ⟨rfl, .other⟩ s whole

theorem rounds_readsAt {round : σ → Parser (σ ⊕ α)} {I : List Token → List Clause → σ → Prop}
    {P : ParserState → Prop} (keeps : ∀ {t : ParserState} {cs rest}, P t → P ((t.meetAll cs).past rest))
    (step : ∀ ts cs x s, s.IsWhole → P s → I ts cs x →
      ReadsAt (round x) (fun us ds => Sum.elim (I (ts ++ us) (cs ++ ds)) (R (ts ++ us) (cs ++ ds))) s)
    (fuel : Nat) {ts : List Token} {cs : List Clause} {x : σ} (whole : s.IsWhole) (here : P s)
    (initially : I ts cs x) : ReadsAt (rounds round fuel x) (fun us ds a => R (ts ++ us) (cs ++ ds) a) s := by
  induction fuel generalizing s ts cs x with
  | zero => exact unexpected_reads _ s whole
  | succ fuel ih =>
    refine (step ts cs x s whole here initially).seq fun us ds result rest tokens good => ?_
    have whole' := whole.onward rest ds tokens
    cases result with
    | inl y =>
      refine (ih whole' (keeps here) good).mono fun vs es a _ _ done => ?_
      rw [List.append_assoc, List.append_assoc] at done
      exact done
    | inr a => exact Reads.pure (by simpa using good) _ whole'

theorem rounds_reads {round : σ → Parser (σ ⊕ α)} {I : List Token → List Clause → σ → Prop}
    (step : ∀ ts cs x, I ts cs x →
      Reads (round x) fun us ds => Sum.elim (I (ts ++ us) (cs ++ ds)) (R (ts ++ us) (cs ++ ds)))
    (fuel : Nat) (ts : List Token) (cs : List Clause) {x : σ} (initially : I ts cs x) :
    Reads (rounds round fuel x) fun us ds a => R (ts ++ us) (cs ++ ds) a :=
  fun _ whole => rounds_readsAt (P := fun _ => True) (fun _ => trivial)
    (fun ts cs x s whole _ good => step ts cs x good s whole) fuel whole trivial initially

/-- Elements with commas between them, through the closing symbol. `view` is what the grammar keeps of an element,
and `ok` what is known of those before. -/
theorem separated_reads {γ : Type} {e : List α → Parser α} {F : List Token → γ → Prop} (view : α → γ)
    (ok : List γ → Prop) (close : Symbol) (fuel : Nat) (none : ok [])
    (each : ∀ before, ok (before.reverse.map view) → Reads (e before) (Plain fun ts a =>
      F ts (view a) ∧ ok (before.reverse.map view ++ [view a]))) :
    Reads (separated e close fuel) (Plain fun ts as =>
      ∃ us t, ts = us ++ [t] ∧ t.kind = .symbol close ∧ Listed F us (as.map view) ∧ ok (as.map view)) := by
  refine (acceptSymbol_reads close).after fun ts closed read => ?_
  cases read with
  | found kind => exact .pure ⟨rfl, [], _, rfl, kind, .none, none⟩
  | other =>
    refine rounds_reads (I := fun ts cs before => cs = [] ∧ ok (before.reverse.map view) ∧
      (before = [] ∧ ts = [] ∨ ∃ us t, ts = us ++ [t] ∧ t.kind = .symbol .comma ∧
        Separated F us (before.reverse.map view))) ?_ fuel [] [] ⟨rfl, none, .inl ⟨rfl, rfl⟩⟩
    rintro ts _ before ⟨rfl, fine, read⟩
    refine (each before fine).after fun us a ⟨good, fine'⟩ => (acceptSymbol_reads .comma).after fun vs comma next => ?_
    have elements : Separated F (ts ++ us) ((a :: before).reverse.map view) := by
      rw [List.reverse_cons, List.map_append]
      rcases read with ⟨rfl, rfl⟩ | ⟨us', t, rfl, kind, elements⟩
      · exact .one good
      · rw [List.append_assoc]
        exact .more elements kind good
    have fine' : ok ((a :: before).reverse.map view) := by
      rw [List.reverse_cons, List.map_append]
      exact fine'
    cases next with
    | found kind => exact .pure ⟨rfl, fine', .inr ⟨_, _, (List.append_assoc ..).symm, kind, elements⟩⟩
    | other =>
      refine (expectSymbol_reads close).after fun ws t closed => ?_
      cases closed with
      | mk kind =>
        exact .pure ⟨rfl, ts ++ us, t, by simp, kind, .some elements, fine'⟩

/-- An expression that stands in a relation by its form. -/
abbrev Formed (E : List Token → Form → Prop) : List Token → List Clause → Expr → Prop :=
  Plain fun ts e => E ts e.form

theorem leftToRight_reads {operators : List (Symbol × (Position → Expr → Expr → Expr))} {signs : List Symbol}
    {operand : Parser Expr} {x y : Phrase} (fuel : Nat) (operands : Reads operand (Formed x.Derives))
    (rule : ∀ {ts f}, Chain signs x.Derives ts f → y.Derives ts f)
    (builds : ∀ o ∈ operators, o.1 ∈ signs ∧ ∀ place left right, (o.2 place left right).form = .value) :
    Reads (leftToRight operators operand fuel) (Formed y.Derives) := by
  refine operands.after fun ts first good => ?_
  refine rounds_reads (I := Formed (Chain signs x.Derives)) ?_ fuel ts [] ⟨rfl, .one good⟩
  rintro ts _ left ⟨rfl, chain⟩
  refine (acceptAny_reads operators).after fun us found read => ?_
  cases read with
  | other => exact .pure ⟨rfl, by simpa using rule chain⟩
  | found among kind =>
    obtain ⟨sign, value⟩ := builds _ among
    refine operands.after fun vs right good => .pure ⟨rfl, ?_⟩
    change Chain signs x.Derives _ _
    rw [value, List.append_nil]
    exact .more chain sign kind good

theorem disjunction_reads {operand : Parser Expr} (fuel : Nat)
    (operands : Reads operand (Formed (Phrase.Derives .unary))) :
    Reads (disjunction operand fuel) (Formed (Phrase.Derives .either)) := by
  have products : Reads (leftToRight multiplicative operand fuel) (Formed (Phrase.Derives .term)) :=
    leftToRight_reads fuel operands .term (by simp [multiplicative, operator, Expr.form])
  have sums : Reads (leftToRight additive _ fuel) (Formed (Phrase.Derives .additive)) :=
    leftToRight_reads fuel products .additive (by simp [additive, operator, Expr.form])
  have comparisons : Reads (leftToRight comparison _ fuel) (Formed (Phrase.Derives .compare)) :=
    leftToRight_reads fuel sums .compare (by simp [comparison, operator, Expr.form])
  have equalities : Reads (leftToRight equality _ fuel) (Formed (Phrase.Derives .equality)) :=
    leftToRight_reads fuel comparisons .equality (by simp [equality, operator, Expr.form])
  have conjunctions : Reads (leftToRight [(.both, fun _ left right => .both left right)] _ fuel)
      (Formed (Phrase.Derives .both)) := leftToRight_reads fuel equalities .both (by simp [Expr.form])
  exact leftToRight_reads fuel conjunctions .either (by simp [Expr.form])

theorem fromOperand_reads {operand : Parser Expr} (fuel : Nat)
    (operands : Reads operand (Formed (Phrase.Derives .unary))) :
    Reads (fromOperand operand fuel) (Formed (Phrase.Derives .expr)) := by
  refine (disjunction_reads fuel operands).after fun ts first good => (acceptSymbol_reads .colon).after
    fun us colon read => ?_
  cases read with
  | other => exact .pure ⟨rfl, by simpa using .single good⟩
  | found kind =>
    exact (disjunction_reads fuel operands).after fun vs second good' => .pure
      ⟨rfl, by simpa [Expr.form] using .pair good kind good'⟩

theorem arguments_reads {expression : Parser Expr} (fuel : Nat)
    (expressions : Reads expression (Formed (Phrase.Derives .expr))) :
    Reads (arguments expression fuel) (Plain fun ts _ => ∃ us t fs, ts = us ++ [t] ∧
      t.kind = .symbol .closeParen ∧ Listed (Phrase.Derives .arg) us fs) := by
  refine (separated_reads (F := Phrase.Derives .arg) (fun _ => .value) (fun _ => True) .closeParen fuel
    trivial ?_).after fun ts args ⟨us, t, split, kind, listed, _⟩ => .pure ?_
  · intro before _
    refine (acceptTwo_reads (j := .ident) (k := .symbol .assign) nofun nofun).after fun ts tag read =>
      expressions.after fun us value good => .pure ?_
    refine ⟨rfl, ?_, trivial⟩
    cases read with
    | found first second => simpa using .keyword first second good
    | other => simpa using .positional good
  · exact ⟨rfl, us, t, _, by simpa using split, kind, listed⟩

theorem primary_reads {expression : Parser Expr} (fuel : Nat)
    (expressions : Reads expression (Formed (Phrase.Derives .expr))) :
    Reads (primary expression fuel) (Formed (Phrase.Derives .primary)) := by
  have listed (close : Symbol) := separated_reads (F := Phrase.Derives .expr) (e := fun _ => expression)
    Expr.form (fun _ => True) close fuel trivial fun _ _ =>
      expressions.mono fun ts _ e good => ⟨good.1, good.2, trivial⟩
  intro s whole
  refine .look (peek_eq whole) ?_
  split
  · next value constant =>
    have spelled : s.next.kind.isConstant = true := by
      rw [← whole.next_literal, constant]
      rfl
    have more : s.next.kind ≠ .endOfInput := fun ended => by
      rw [ended] at spelled
      cases spelled
    exact .step (advance_eq whole) more (Reads.pure ⟨rfl, .constant spelled⟩ _ whole.past_tail)
  · next none named =>
    have more : s.next.kind ≠ .endOfInput := named ▸ nofun
    refine .step (advance_eq whole) more (Reads.after (acceptSymbol_reads .openParen) ?_ _ whole.past_tail)
    intro ts paren read
    cases read with
    | found opened =>
      refine (arguments_reads fuel expressions).after fun us args ⟨vs, t, fs, split, closed, given⟩ => .pure ⟨rfl, ?_⟩
      subst split
      simpa [Expr.form] using .call named opened given closed
    | other => exact .pure ⟨rfl, .variable named⟩
  · next none opened =>
    have more : s.next.kind ≠ .endOfInput := opened ▸ nofun
    refine .step (advance_eq whole) more (Reads.after expressions ?_ _ whole.past_tail)
    refine fun us inner good => (expectSymbol_reads .closeParen).after fun vs t read => ?_
    cases read with
    | mk closed => exact .pure ⟨rfl, .group opened good closed⟩
  · next none opened =>
    have more : s.next.kind ≠ .endOfInput := opened ▸ nofun
    refine .step (advance_eq whole) more (Reads.after (listed .closeBracket) ?_ _ whole.past_tail)
    intro us items ⟨vs, t, split, closed, given, _⟩
    subst split
    exact .pure ⟨rfl, by simpa [Expr.form] using .list opened given closed⟩
  · next none opened =>
    have more : s.next.kind ≠ .endOfInput := opened ▸ nofun
    refine .step (advance_eq whole) more (Reads.after (listed .closeBrace) ?_ _ whole.past_tail)
    intro us entries ⟨vs, t, split, closed, given, _⟩
    subst split
    exact .pure ⟨rfl, by simpa [Expr.form] using .map opened given closed⟩
  · exact unexpected_reads _ s whole

theorem postfixed_reads {expression : Parser Expr} (fuel : Nat)
    (expressions : Reads expression (Formed (Phrase.Derives .expr))) :
    Reads (postfixed expression fuel) (Formed (Phrase.Derives .postfixed)) := by
  refine (primary_reads fuel expressions).after fun ts first good => ?_
  refine rounds_reads (I := Formed (Trailed (Phrase.Derives .primary) (Phrase.Derives .arg) (Phrase.Derives .expr)))
    ?_ fuel ts [] ⟨rfl, .bare good⟩
  rintro ts _ e ⟨rfl, receiver⟩
  refine (acceptSymbol_reads .dot).after fun us dot read => ?_
  cases read with
  | found dotted =>
    refine (expect_reads (k := .ident) nofun _).after fun vs name read => ?_
    cases read with
    | mk named =>
      refine (acceptSymbol_reads .openParen).after fun ws paren read => ?_
      cases read with
      | found opened =>
        refine (arguments_reads fuel expressions).after fun us args ⟨vs, t, fs, split, closed, given⟩ => .pure ?_
        subst split
        refine ⟨rfl, ?_⟩
        change Trailed _ _ _ _ .value
        rw [List.append_nil]
        exact .send receiver dotted named opened given closed
      | other => exact .pure ⟨rfl, .member receiver dotted named⟩
  | other =>
    refine (acceptSymbol_reads .openBracket).after fun vs bracket read => ?_
    cases read with
    | found opened =>
      refine expressions.after fun ws key good => (expectSymbol_reads .closeBracket).after fun vs t read => ?_
      cases read with
      | mk closed => exact .pure ⟨rfl, .element receiver opened good closed⟩
    | other => exact .pure ⟨rfl, by simpa using .postfixed receiver⟩

theorem unary_reads (fuel : Nat) : Reads (unary fuel) (Formed (Phrase.Derives .unary)) := by
  induction fuel with
  | zero => exact unexpected_reads _
  | succ fuel ih =>
    refine (acceptAny_reads _).after fun ts found read => ?_
    cases read with
    | found among sign =>
      have signed := List.mem_map_of_mem (f := Prod.fst) among
      exact ih.after fun us operand good => .pure ⟨rfl, by simpa [Expr.form] using .signed signed sign good⟩
    | other =>
      exact (postfixed_reads fuel (fromOperand_reads fuel ih)).mono fun us cs e good =>
        ⟨good.1, .unsigned good.2⟩

theorem expression_reads (fuel : Nat) : Reads (expression fuel) (Formed (Phrase.Derives .expr)) :=
  fromOperand_reads fuel (unary_reads fuel)

/-- Clauses of a sentence with the tokens that make it up. -/
abbrev Says (x : Sentence) : List Token → List Clause → α → Prop := fun ts cs _ => x.Derives ts cs

/-- A clause that changes no names can be taken note of at any place. -/
theorem ReadsAt.note {p : Parser α} {c : Clause} (permits : s.Permits c) (same : s.meet c = s)
    (reads : ReadsAt p (fun ts cs a => R ts (c :: cs) a) s) : ReadsAt p R s := by
  intro a s' done
  obtain ⟨ts, cs, rest, tokens, good, permits', same'⟩ := reads a s' done
  refine ⟨ts, c :: cs, rest, tokens, good, ⟨permits, ?_⟩, ?_⟩
  · rw [same]
    exact permits'
  · rw [same']
    change (s.meetAll cs).past rest = ((s.meet c).meetAll cs).past rest
    rw [same]

theorem condition_reads (fuel : Nat) : Reads (condition fuel) (Plain fun ts _ => ConditionRule ts) := by
  refine (expectSymbol_reads .openParen).after fun ts t opening => (expression_reads fuel).after fun us e good =>
    (expectSymbol_reads .closeParen).after fun vs u closing => ?_
  cases opening with
  | mk opened =>
    cases closing with
    | mk closed => exact .pure ⟨rfl, .mk opened good closed⟩

theorem block_reads {statement : Parser Stmt} (fuel : Nat) (statements : Reads statement (Says .statement)) :
    Reads (block statement fuel) (Says .block) := by
  refine (expectSymbol_reads .openBrace).after fun ts t opening => ?_
  cases opening with
  | mk opened =>
    refine rounds_reads (I := fun us cs _ => ∃ vs, us = t :: vs ∧ Many (Sentence.Derives .statement) vs cs) ?_ fuel
      _ [] ⟨[], rfl, .none⟩
    rintro us cs before ⟨vs, rfl, many⟩
    refine (acceptSymbol_reads .closeBrace).after fun ws closed read => ?_
    cases read with
    | found kind => exact .pure (by simpa using Sentence.Derives.block opened many kind)
    | other =>
      intro s whole
      refine .look (sees_eq whole _) ?_
      split
      · exact unexpected_reads _ s whole
      · refine statements.bind (fun ws ds stmt good => .pure ?_) s whole
        exact ⟨vs ++ ws, by simp, by simpa using many.more good⟩

theorem otherwise_reads {condition : Parser Expr} {body : Parser (List Stmt)}
    (conditions : Reads condition (Plain fun ts _ => ConditionRule ts)) (bodies : Reads body (Says .block))
    (fuel : Nat) : Reads (otherwise condition body fuel) (Says .otherwise) := by
  induction fuel with
  | zero => exact unexpected_reads _
  | succ fuel ih =>
    have another (opening : List Token → List Token) (opens : ∀ {us vs ws cs ds}, ConditionRule us →
        Sentence.Derives .block vs cs → Sentence.Derives .otherwise ws ds →
        Sentence.Derives .otherwise (opening (us ++ (vs ++ ws))) (cs ++ ds)) :
        Reads (do
          let c ← condition
          let b ← body
          let rest ← otherwise condition body fuel
          pure (Otherwise.branch c b rest)) fun ts cs _ => Sentence.Derives .otherwise (opening ts) cs := by
      refine conditions.after fun us c h₁ => bodies.bind fun vs cs b h₂ => ih.bind fun ws ds rest h₃ => .pure ?_
      simpa using opens h₁ h₂ h₃
    refine (acceptWord_reads .elifWord).after fun ts elifWord read => ?_
    cases read with
    | @found t opened => exact another (t :: ·) fun h₁ h₂ h₃ => .elifArm opened h₁ h₂ h₃
    | other =>
      refine (acceptWord_reads .elseWord).after fun us elseWord read => ?_
      cases read with
      | @found t opened =>
        refine (acceptWord_reads .ifWord).after fun us ifWord read => ?_
        cases read with
        | @found u again => exact another (t :: u :: ·) fun h₁ h₂ h₃ => .elseIfArm opened again h₁ h₂ h₃
        | other => exact bodies.map fun ts cs b good => .elseArm opened good
      | other => exact .pure .nothing

theorem defaultValue_reads (parameter : String) :
    Reads (defaultValue parameter) (Plain fun ts _ => ∃ t, ts = [t] ∧ t.kind.isConstant = true) := by
  intro s whole
  cases value : s.next.literal with
  | none =>
    intro a s' done
    obtain ⟨t, s₁, read, done⟩ := bind_eq_ok done
    cases (advance_eq whole).symm.trans read
    rw [value] at done
    cases done
  | some v =>
    have spelled := whole.next_literal
    rw [value] at spelled
    have more : s.next.kind ≠ .endOfInput := fun ended => by
      rw [ended] at spelled
      cases spelled
    refine .step (advance_eq whole) more ?_
    rw [value]
    exact Reads.pure ⟨rfl, _, rfl, spelled.symm⟩ _ whole.past_tail

theorem parameter_reads (before : List ParamTree) : Reads (parameter before) (Plain fun ts p =>
    ParameterRule ts p.name ∧ p.name ∉ before.map ParamTree.name) := by
  refine (expect_reads (k := .ident) nofun _).after fun ts t read => ?_
  cases read with
  | mk named =>
    split
    · exact faultAt_reads _ _
    · next distinct =>
      have fresh : t.text ∉ before.map ParamTree.name := by simpa using distinct
      refine (acceptSymbol_reads .assign).after fun us sign read => ?_
      cases read with
      | found signed =>
        refine (defaultValue_reads _).after fun vs value ⟨u, split, constant⟩ => .pure ⟨rfl, ?_, fresh⟩
        subst split
        exact .optional named signed constant
      | other => exact .pure ⟨rfl, .required named, fresh⟩

/-- A function keeps what its body declares to itself. -/
theorem inside_reads {p : Parser α} {f : α → β} (reads : Reads p R) :
    Reads (do
      modify fun s => { s with depth := s.depth + 1 }
      let a ← p
      modify fun s => { s with depth := s.depth - 1 }
      pure (f a)) fun ts cs b => ∃ a ds, R ts ds a ∧ cs = ds.filter Clause.isLocal ∧ b = f a := by
  intro s whole b s' done
  obtain ⟨_, _, opened, done⟩ := bind_eq_ok done
  cases opened
  obtain ⟨a, s₁, read, done⟩ := bind_eq_ok done
  cases done
  obtain ⟨ts, ds, rest, tokens, good, permits, rfl⟩ := reads { s with depth := s.depth + 1 } ⟨whole.1, whole.2⟩
    a s₁ read
  have quiet : ∀ c ∈ ds.filter Clause.isLocal, c.isLocal = true := fun c among => (List.mem_filter.mp among).2
  refine ⟨ts, ds.filter Clause.isLocal, rest, tokens, ⟨a, ds, good, rfl, rfl⟩, ?_, ?_⟩
  · have allowed := (ParserState.permitsAll_inside (Nat.succ_ne_zero _)).mp permits
    exact (ParserState.permitsAll_local quiet).mpr fun c among => allowed c (List.mem_filter.mp among).1
  · rw [ParserState.meetAll_local quiet, ParserState.meetAll_inside (Nat.succ_ne_zero _)]
    rfl

theorem function_reads (place : Position) {statement : Parser Stmt} (fuel : Nat)
    (statements : Reads statement (Says .statement)) :
    Reads (function place statement fuel) fun ts cs f => FunctionRule (Sentence.Derives .block) ts f.name cs := by
  refine (expect_reads (k := .ident) nofun _).after fun ts name named =>
    (expectSymbol_reads .openParen).after fun us opening opened =>
    (separated_reads (F := ParameterRule) ParamTree.name List.Nodup .closeParen fuel List.nodup_nil ?_).after
    fun vs params read => ?_
  · intro before distinct
    refine (parameter_reads before).mono fun ts cs p ⟨plain, good, fresh⟩ => ⟨plain, good, ?_⟩
    rw [List.nodup_append]
    refine ⟨distinct, by simp, ?_⟩
    simp_all
  · obtain ⟨ws, closing, split, closed, listed, distinct⟩ := read
    subst split
    cases named with
    | mk named =>
      cases opened with
      | mk opened =>
        intro s whole
        refine .note (c := .takes (params.map ParamTree.name)) distinct rfl ?_
        refine (inside_reads (block_reads fuel statements)).mono ?_ s whole
        rintro ts _ _ ⟨body, ds, good, rfl, rfl⟩
        simpa using FunctionRule.mk named opened listed closed good

/-- At the top level, a declaration adds a name that no class has. -/
theorem declare_readsAt (name : String) (place : Position) (outside : s.depth = 0) :
    ReadsAt (declare name place) (fun ts cs _ => ts = [] ∧ cs = [.declares name false]) s := by
  refine .look (p := get) rfl ?_
  split
  · rintro _ _ ⟨⟩
  · next free =>
    rintro _ _ ⟨⟩
    refine ⟨[], _, s.cursor.tokens, rfl, ⟨rfl, rfl⟩, ⟨fun _ => ⟨free, nofun⟩, trivial⟩, ?_⟩
    simp [ParserState.meetAll, ParserState.meet, outside, ParserState.past]

theorem assignment_reads (first : Token) (target : Expr) (place : Position) (fuel : Nat) :
    Reads (assignment first target place fuel) fun ts cs _ => ∃ us t g, ts = us ++ [t] ∧
      Phrase.expr.Derives us g ∧ t.kind = .symbol .semicolon ∧ cs = target.form.clauses := by
  refine (expression_reads fuel).after fun us value good => ?_
  have finish (target' : Target) : Reads (do
      let semicolon ← expectSymbol .semicolon
      pure (Stmt.assign ⟨first.position.line, semicolon.position.line⟩ target' value place))
      (Plain fun ts _ => ∃ t, ts = [t] ∧ t.kind = .symbol .semicolon) := by
    refine (expectSymbol_reads .semicolon).after fun ts t read => ?_
    cases read with
    | mk ended => exact .pure ⟨rfl, _, by simp, ended⟩
  have unnamed (target' : Target) {f : Form} (fine : f ≠ .value) (same : f.clauses = [.assigns f]) : Reads (do
      let semicolon ← expectSymbol .semicolon
      pure (Stmt.assign ⟨first.position.line, semicolon.position.line⟩ target' value place))
      fun vs cs _ => ∃ ws t g, us ++ vs = ws ++ [t] ∧ Phrase.expr.Derives ws g ∧ t.kind = .symbol .semicolon ∧
        cs = f.clauses := by
    refine fun s whole => .note (c := .assigns f) fine rfl ((finish target').mono ?_ s whole)
    rintro _ _ _ ⟨rfl, t, rfl, ended⟩
    exact ⟨us, t, _, rfl, good, ended, same.symm⟩
  cases target with
  | «variable» name here =>
    intro s whole
    refine .note (c := .assigns (.variable name)) (by simp [ParserState.Permits, Clause.IsAllowed]) rfl ?_
    refine .look (p := get) rfl ?_
    split
    · next outside =>
      refine (declare_readsAt name here outside).bind whole ?_
      rintro _ _ _ ⟨rfl, rfl⟩
      refine (finish _).mono ?_
      rintro _ _ _ ⟨rfl, t, rfl, ended⟩
      exact ⟨us, t, _, rfl, good, ended, rfl⟩
    · next inside =>
      refine .note (c := .declares name false) (fun outside => absurd outside inside)
        (by simp [ParserState.meet, inside]) ((finish _).mono ?_ s whole)
      rintro _ _ _ ⟨rfl, t, rfl, ended⟩
      exact ⟨us, t, _, rfl, good, ended, rfl⟩
  | member receiver name here => exact unnamed _ (f := .member) (by decide) rfl
  | index receiver key here => exact unnamed _ (f := .element) (by decide) rfl
  | _ => exact faultAt_reads _ _

theorem simple_reads (first : Token) (fuel : Nat) : Reads (simple first fuel) (Says .statement) := by
  refine (acceptWord_reads .returnWord).after fun ts returned read => ?_
  cases read with
  | @found word opened =>
    have finish (value : Option Expr) (us : List Token) (given : ∀ t, t.kind = .symbol .semicolon →
        Sentence.Derives .statement (word :: (us ++ [t])) []) : Reads (do
          let semicolon ← expectSymbol .semicolon
          pure (Stmt.ret ⟨first.position.line, semicolon.position.line⟩ value))
        fun vs cs _ => Sentence.Derives .statement (word :: (us ++ vs)) cs := by
      refine (expectSymbol_reads .semicolon).after fun vs t read => ?_
      cases read with
      | mk ended => exact .pure (given t ended)
    intro s whole
    refine .look (sees_eq whole _) ?_
    split
    · exact finish none [] (fun t ended => .ret opened ended) s whole
    · refine ReadsAt.bind (R := Plain fun ts _ => ∃ f, Phrase.expr.Derives ts f) whole ?_ ?_
      · exact (expression_reads fuel).map (fun ts cs e good => ⟨good.1, _, good.2⟩) s whole
      · rintro us _ value ⟨rfl, f, good⟩
        exact finish value us fun t ended => .retValue opened good ended
  | other =>
    refine (expression_reads fuel).after fun us e good => (acceptSymbol_reads .assign).after fun vs sign read => ?_
    cases read with
    | found signed =>
      refine (assignment_reads first e _ fuel).mono ?_
      rintro _ _ _ ⟨ws, t, g, rfl, value, ended, rfl⟩
      exact .assign good signed value ended
    | other =>
      refine (expectSymbol_reads .semicolon).after fun ws t read => ?_
      cases read with
      | mk ended => exact .pure (.eval good ended)

theorem forLoop_reads (place : Position) {statement : Parser Stmt} (fuel : Nat)
    (statements : Reads statement (Says .statement)) {word : Token} (opened : word.kind = .keyword .forWord) :
    Reads (forLoop place statement fuel) fun ts cs _ => Sentence.Derives .statement (word :: ts) cs := by
  refine (expectSymbol_reads .openParen).after fun ts opening before =>
    (expect_reads (k := .ident) nofun _).after fun us name named =>
    (expectSymbol_reads .colon).after fun vs colon sign => (expression_reads fuel).after fun ws items good =>
    (expectSymbol_reads .closeParen).after fun xs closing after =>
    (block_reads fuel statements).bind fun ys cs body run => .pure ?_
  cases before with
  | mk before =>
  cases named with
  | mk named =>
  cases sign with
  | mk sign =>
  cases after with
  | mk after => simpa using Sentence.Derives.forLoop opened before named sign good after run

theorem guarded_reads (line : Nat) {statement : Parser Stmt} (fuel : Nat)
    (statements : Reads statement (Says .statement)) {word : Token} (opened : word.kind = .keyword .tryWord) :
    Reads (guarded line statement fuel) fun ts cs _ => Sentence.Derives .statement (word :: ts) cs := by
  refine (block_reads fuel statements).bind fun ts cs body run =>
    (expect_reads (k := .keyword .catchWord) nofun _).after fun us handles caught => ?_
  cases caught with
  | mk caught =>
    have finish (binding : Option String) {vs : List Token} (named : HandlerName vs) : Reads (do
        let handler ← block statement fuel
        pure (Stmt.guarded line body binding handler)) fun ws ds _ =>
          Sentence.Derives .statement (word :: (ts ++ handles :: (vs ++ ws))) (cs ++ ds) := by
      refine (block_reads fuel statements).bind fun ws ds handler run' => .pure ?_
      simpa using Sentence.Derives.guarded opened run caught named run'
    refine (acceptSymbol_reads .colon).after fun vs colon read => ?_
    cases read with
    | found sign =>
      refine (expect_reads (k := .ident) nofun _).after fun vs name read => ?_
      cases read with
      | mk named => exact finish _ (.some sign named)
    | other => exact finish none .none

theorem statement_reads (fuel : Nat) : Reads (statement fuel) (Says .statement) := by
  induction fuel with
  | zero => exact unexpected_reads _
  | succ fuel ih =>
    have blocks := block_reads fuel ih
    have conditions := condition_reads fuel
    intro s whole
    refine .look (peek_eq whole) ?_
    -- What follows an opening word is read from the state after it.
    have word {k : Keyword} (opened : s.next.kind = .keyword k) {p : Token → Parser Stmt} (reads : Reads (p s.next)
        fun ts cs _ => Sentence.Derives .statement (s.next :: ts) cs) :
        ReadsAt (advance >>= p) (Says .statement) s := by
      have more : s.next.kind ≠ .endOfInput := opened ▸ nofun
      exact .step (advance_eq whole) more (reads _ whole.past_tail)
    dsimp only
    split
    · next opened =>
      refine word opened (conditions.after fun us c h₁ => blocks.bind fun vs cs body h₂ =>
        (otherwise_reads conditions blocks fuel).bind fun ws ds rest h₃ => .pure ?_)
      simpa using Sentence.Derives.branch opened h₁ h₂ h₃
    · next opened =>
      refine word opened (conditions.after fun us c h₁ => blocks.bind fun vs cs body h₂ => .pure ?_)
      simpa using Sentence.Derives.whileLoop opened h₁ h₂
    · next opened => exact word opened (forLoop_reads _ fuel ih opened)
    · next opened => exact word opened (guarded_reads _ fuel ih opened)
    · next opened =>
      refine word opened ((function_reads _ fuel ih).bind fun ts cs f good => .pure ?_)
      simpa using Sentence.Derives.define opened good
    · exact faultAt_reads _ _ s whole
    · exact simple_reads _ fuel s whole

theorem classMember_reads (fuel : Nat) : Reads (classMember fuel) (Says .member) := by
  have functions (place : Position) := function_reads place fuel (statement_reads fuel)
  refine (acceptTwo_reads (j := .keyword .staticWord) (k := .keyword .defWord) nofun nofun).after
    fun ts opening read => ?_
  cases read with
  | found stands opened =>
    exact (functions _).map fun us cs f good => .staticMethod stands opened good
  | other =>
    refine (acceptWord_reads .staticWord).after fun ts opening read => ?_
    cases read with
    | found opened =>
      refine (expect_reads (k := .ident) nofun _).after fun us name named =>
        (expect_reads (k := .symbol .assign) nofun _).after fun vs sign signed =>
        (expression_reads fuel).after fun ws value good => (expectSymbol_reads .semicolon).after fun xs t ended => ?_
      cases named with
      | mk named =>
      cases signed with
      | mk signed =>
      cases ended with
      | mk ended => exact .pure (.field opened named signed good ended)
    | other =>
      refine (acceptWord_reads .defWord).after fun us opening read => ?_
      cases read with
      | found opened => exact (functions _).map fun us cs f good => .method opened good
      | other => exact unexpected_reads _

/-- Declarations can be read after clauses that declare nothing as well as before them. -/
theorem ReadsAt.declared_first {p : Parser α} (reads : ReadsAt p (fun ts ds a =>
    ∃ cs c, ds = cs ++ [c] ∧ (∀ c ∈ cs, c.isLocal = true) ∧ R ts (c :: cs) a) s) : ReadsAt p R s := by
  intro a s' done
  obtain ⟨ts, _, rest, tokens, ⟨cs, c, rfl, quiet, good⟩, permits, same⟩ := reads a s' done
  rw [ParserState.permitsAll_append, ParserState.meetAll_local quiet] at permits
  rw [ParserState.meetAll_append, ParserState.meetAll_local quiet] at same
  refine ⟨ts, c :: cs, rest, tokens, good, ?_, ?_⟩
  · exact (ParserState.permitsAll_declared _ quiet).mpr ⟨permits.1, permits.2.1⟩
  · rw [same, ParserState.meetAll_declared _ quiet]
    rfl

theorem declareClass_readsAt {name : String} {a : α} (outside : s.depth = 0)
    (free : ¬(name ∈ s.topLevel ∨ name ∈ s.classes)) : ReadsAt (do
      modify fun s => { s with classes := name :: s.classes }
      pure a) (fun ts cs b => ts = [] ∧ cs = [.declares name true] ∧ b = a) s := by
  rintro _ _ ⟨⟩
  refine ⟨[], _, s.cursor.tokens, rfl, ⟨rfl, rfl, rfl⟩,
    ⟨fun _ => ⟨(free <| .inr ·), fun _ => (free <| .inl ·)⟩, trivial⟩, ?_⟩
  simp [ParserState.meetAll, ParserState.meet, outside, ParserState.past]

theorem classDef_readsAt (line fuel : Nat) {word : Token} (opened : word.kind = .keyword .classWord)
    (whole : s.IsWhole) (outside : s.depth = 0) :
    ReadsAt (classDef line fuel) (fun ts cs c => Sentence.Derives .item (word :: ts) cs ∧
      [.declares c.name true].Sublist cs) s := by
  refine .declared_first ((expect_reads (k := .ident) nofun _ s whole).seq ?_)
  rintro _ _ name rest tokens ⟨rfl, ⟨named⟩⟩
  have whole := whole.onward rest [] tokens
  refine .look (p := get) rfl ?_
  split
  · exact faultAt_reads _ _ _ whole
  next free =>
  refine (expectSymbol_reads .openBrace _ whole).seq ?_
  rintro _ _ opening rest tokens ⟨rfl, ⟨before⟩⟩
  have whole := whole.onward rest [] tokens
  refine (rounds_reads (I := fun ts cs _ => Many (Sentence.Derives .member) ts cs) (R := fun ts cs _ =>
    ∃ us t, ts = us ++ [t] ∧ t.kind = .symbol .closeBrace ∧ Many (Sentence.Derives .member) us cs)
    ?_ fuel [] [] .none _ whole).seq ?_
  · intro ts cs before many
    refine (acceptSymbol_reads .closeBrace).after fun us closed read => ?_
    cases read with
    | found kind => exact .pure ⟨ts, _, rfl, kind, by simpa using many⟩
    | other => exact (classMember_reads fuel).bind fun vs ds m good => .pure (by simpa using many.more good)
  · rintro _ cs trees rest _ ⟨us, closing, rfl, after, many⟩
    rw [List.nil_append] at many
    have quiet := many.isLocal fun ts cs => Sentence.Derives.member_isLocal
    rw [ParserState.meetAll_local quiet]
    refine ReadsAt.mono (declareClass_readsAt outside free) ?_
    rintro _ _ _ _ _ ⟨rfl, rfl, rfl⟩
    exact ⟨cs, _, rfl, quiet, by simpa using .classDef opened named before many after, by simp⟩

theorem item_readsAt (fuel : Nat) (whole : s.IsWhole) (outside : s.depth = 0) :
    ReadsAt (item fuel) (fun ts cs i => Sentence.Derives .item ts cs ∧ i.declarations.Sublist cs) s := by
  refine .accept whole nofun (fun opened => ?_) fun noFunction => ?_
  · have whole := whole.past_tail
    refine .declared_first ((function_reads _ fuel (statement_reads fuel) _ whole).seq ?_)
    intro ts cs f rest tokens good
    have whole := whole.onward rest cs tokens
    have outside : (((s.past s.cursor.tokens.tail).meetAll cs).past rest).depth = 0 :=
      ParserState.meetAll_depth.trans outside
    refine (declare_readsAt _ _ outside).bind whole ?_
    rintro _ _ _ ⟨rfl, rfl⟩
    refine .pure ⟨cs, _, rfl, good.isLocal, by simpa using .function opened good, ?_⟩
    simp [Item.declarations]
  · refine .accept whole nofun (fun opened => ?_) fun _ => ?_
    · have whole := whole.past_tail
      exact (classDef_readsAt _ fuel opened whole outside).seq fun ts cs c rest tokens good =>
        Reads.pure (by simpa [Item.declarations] using good) _ (whole.onward rest _ tokens)
    · refine (statement_reads fuel s whole).seq fun ts cs stmt rest tokens good =>
        Reads.pure ⟨?_, List.nil_sublist _⟩ _ (whole.onward rest _ tokens)
      refine .plain (by simpa using good) ?_
      rw [List.append_nil]
      intro t first
      cases ts with
      | nil => cases first
      | cons u us =>
        cases first
        have next : s.next = t := by rw [ParserState.next, tokens, List.cons_append]
        rwa [← next]

/-- A loop ends with a round that yields its result. -/
theorem rounds_ends {round : σ → Parser (σ ⊕ α)} (fuel : Nat) {x : σ} {a : α} {s' : ParserState}
    (done : rounds round fuel x s = .ok (a, s')) : ∃ y s₁, round y s₁ = .ok (.inr a, s') := by
  induction fuel generalizing s x with
  | zero =>
    obtain ⟨_, _, _, failed⟩ := bind_eq_ok done
    cases failed
  | succ fuel ih =>
    obtain ⟨result, s₁, turned, done⟩ := bind_eq_ok done
    cases result with
    | inl y => exact ih done
    | inr b =>
      cases done
      exact ⟨x, s, turned⟩

theorem module_readsAt (fuel : Nat) (whole : s.IsWhole) (outside : s.depth = 0) :
    ReadsAt (module fuel) (fun ts cs m => IsModule ts cs ∧ m.declarations.Sublist cs) s := by
  refine (rounds_readsAt (P := fun s => s.depth = 0)
    (I := fun ts cs before => IsModule ts cs ∧ (before.reverse.flatMap Item.declarations).Sublist cs)
    (R := fun ts cs items => IsModule ts cs ∧ (items.flatMap Item.declarations).Sublist cs)
    (fun outside => ParserState.meetAll_depth.trans outside) ?_ fuel whole outside
    ⟨.none, List.nil_sublist _⟩).seq fun ts cs items rest tokens good => ?_
  · intro ts cs before s whole outside many
    refine .look (sees_eq whole _) ?_
    split
    · exact Reads.pure (by simpa using many) s whole
    · refine (item_readsAt fuel whole outside).bind whole fun us ds i ⟨good, declared⟩ => .pure ?_
      refine ⟨by simpa using many.1.more good, ?_⟩
      rw [List.reverse_cons, List.flatMap_append, List.flatMap_singleton, List.append_nil]
      exact many.2.append declared
  · have whole := whole.onward rest cs tokens
    exact .look (peek_eq whole) (Reads.pure (by simpa [ModuleTree.declarations] using good) _ whole)

/-- Looking at the next token changes nothing, also where the text has a fault. -/
theorem peek_eq_ok {t : Token} {s' : ParserState} (peeked : peek s = .ok (t, s')) :
    s' = s ∧ s.cursor.peek = .ok t := by
  have run : peek s = s.cursor.peek >>= fun t => .ok (t, s) := rfl
  rw [run] at peeked
  cases here : s.cursor.peek with
  | error fault =>
    rw [here] at peeked
    cases peeked
  | ok u =>
    rw [here] at peeked
    cases peeked
    exact ⟨rfl, rfl⟩

/-- A module goes up to the end of the input, without a fault. -/
theorem module_ends {fuel : Nat} {tree : ModuleTree} {s' : ParserState} (done : module fuel s = .ok (tree, s'))
    (spelled : ∀ t ∈ s'.cursor.tokens, t.IsSpelled) : s'.cursor.tokens = [] ∧ s'.cursor.failure = none := by
  obtain ⟨items, s₁, read, stopped⟩ := bind_eq_ok done
  obtain ⟨stop, s₂, stopped, done⟩ := bind_eq_ok stopped
  obtain ⟨rfl, _⟩ := peek_eq_ok stopped
  cases done
  obtain ⟨before, s₂, turned⟩ := rounds_ends fuel read
  obtain ⟨last, s₃, seen, ended⟩ := bind_eq_ok turned
  obtain ⟨t, s₄, peeked, looked⟩ := bind_eq_ok seen
  obtain ⟨rfl, next⟩ := peek_eq_ok peeked
  cases looked
  split at ended
  · next stops =>
    cases ended
    have kind : t.kind = .endOfInput := by simpa using stops
    unfold Cursor.peek at next
    cases tokens : s'.cursor.tokens with
    | nil =>
      rw [tokens] at next
      refine ⟨rfl, ?_⟩
      cases failed : s'.cursor.failure with
      | none => rfl
      | some fault =>
        simp only [Cursor.atStop, failed] at next
        cases next
    | cons u rest =>
      rw [tokens] at next
      cases next
      exact absurd kind (spelled _ (tokens ▸ List.mem_cons_self)).kind
  · obtain ⟨i, s₅, _, ended⟩ := bind_eq_ok ended
    cases ended

end Parser

/-- A module that is read stands in the grammar, and its clauses fulfil the conditions. -/
theorem ParserState.IsWhole.derives {s : ParserState} (whole : s.IsWhole) (outside : s.depth = 0) {fuel : Nat}
    {tree : ModuleTree} {s' : ParserState} (done : Parser.module fuel s = .ok (tree, s')) :
    ∃ cs, IsModule s.cursor.tokens cs ∧ s.PermitsAll cs ∧ tree.declarations.Sublist cs := by
  obtain ⟨ts, cs, rest, tokens, ⟨good, declared⟩, permits, rfl⟩ := Parser.module_readsAt fuel whole outside tree s' done
  have ended : rest = [] := (Parser.module_ends done (whole.onward rest _ tokens).spelled).1
  refine ⟨cs, ?_, permits, declared⟩
  rw [tokens, ended, List.append_nil]
  exact good

end ScriptEngine
