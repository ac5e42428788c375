import ScriptEngine.Proofs.ParserStates

/-! # The parser reads every module

Tokens that stand in the grammar are read, wherever their clauses can stand, if what comes after them does not
go on with the phrase. `Takes` says so of one step of parsing. The parser never goes back, so each lemma has to
know which token comes next: either the rule tells, or it is the first one of a phrase (`Begins`), or it is what
the follow condition of `Takes` says. Each phrase is shorter than the bound that its parser is given, so no bound is
used up.
-/

namespace ScriptEngine

/-- The kind of the token that comes first; at the end, that of the end token. -/
def nextKind : List Token → TokenKind
  | [] => .endOfInput
  | t :: _ => t.kind

theorem ParserState.next_kind (s : ParserState) : s.next.kind = nextKind s.cursor.tokens := by
  unfold ParserState.next
  cases s.cursor.tokens <;> rfl

theorem Begins.nextKind {kinds : TokenKind → Bool} {ts : List Token} (begins : Begins kinds ts) (rest : List Token) :
    kinds (nextKind (ts ++ rest)) = true := by
  obtain ⟨t, us, rfl, kind⟩ := begins
  exact kind

namespace Parser

variable {α β σ : Type} {L : Nat → Prop} {F G : TokenKind → Prop} {ts us : List Token} {cs ds : List Clause}
  {P : α → Prop} {Q : β → Prop}

/-- At the levels of `L`, a step reads some tokens, if what comes next is as `F` says and the clauses of the tokens
can stand. Its result is as `P` says. -/
def Takes (L : Nat → Prop) (p : Parser α) (F : TokenKind → Prop) (ts : List Token) (cs : List Clause)
    (P : α → Prop) : Prop :=
  ∀ s rest, s.IsWhole → L s.depth → s.cursor.tokens = ts ++ rest → F (nextKind rest) → s.PermitsAll cs →
    ∃ a, p s = .ok (a, (s.meetAll cs).past rest) ∧ P a

/-- Whatever comes next. -/
abbrev Any : TokenKind → Prop := fun _ => True

/-- A step that only looks at what is to come. -/
theorem Takes.look {p : Parser α} {a : α} (looks : ∀ s, s.IsWhole → F s.next.kind → p s = .ok (a, s)) (h : P a) :
    Takes L p F [] [] P := by
  intro s rest whole _ tokens next _
  have same : s.past rest = s := ParserState.past_self tokens
  refine ⟨a, ?_, h⟩
  change p s = .ok (a, s.past rest)
  rw [same]
  exact looks s whole (by rw [ParserState.next_kind, tokens]; exact next)

theorem Takes.pure {a : α} (h : P a) : Takes L (pure a) F [] [] P := .look (fun _ _ _ => rfl) h

theorem Takes.bind {p : Parser α} {f : α → Parser β} (first : Takes L p F ts cs P)
    (joins : ∀ rest, G (nextKind rest) → F (nextKind (us ++ rest))) (second : ∀ a, P a → Takes L (f a) G us ds Q) :
    Takes L (p >>= f) G (ts ++ us) (cs ++ ds) Q := by
  intro s rest whole level tokens next permits
  obtain ⟨here, there⟩ := ParserState.permitsAll_append.mp permits
  rw [List.append_assoc] at tokens
  obtain ⟨a, read, good⟩ := first s (us ++ rest) whole level tokens (joins rest next) here
  obtain ⟨b, read', good'⟩ := second a good ((s.meetAll cs).past (us ++ rest)) rest (whole.onward _ _ tokens)
    (ParserState.meetAll_depth (s := s) ▸ level) rfl next ((ParserState.permitsAll_past _).mpr there)
  refine ⟨b, ?_, good'⟩
  rw [bind_eq read, read', ParserState.meetAll_past, ParserState.meetAll_append]
  rfl

/-- After a step that reads nothing. -/
theorem Takes.skip {p : Parser α} {f : α → Parser β} (first : Takes L p F [] [] P)
    (joins : ∀ rest, G (nextKind rest) → F (nextKind (us ++ rest))) (second : ∀ a, P a → Takes L (f a) G us ds Q) :
    Takes L (p >>= f) G us ds Q := first.bind joins second

/-- After a step that reads one token. -/
theorem Takes.token {p : Parser α} {f : α → Parser β} {t : Token} (first : Takes L p Any [t] [] P)
    (second : ∀ a, P a → Takes L (f a) G us ds Q) : Takes L (p >>= f) G (t :: us) ds Q :=
  first.bind (fun _ _ => trivial) second

/-- After a step that reads two tokens. -/
theorem Takes.tokens {p : Parser α} {f : α → Parser β} {t u : Token} (first : Takes L p Any [t, u] [] P)
    (second : ∀ a, P a → Takes L (f a) G us ds Q) : Takes L (p >>= f) G (t :: u :: us) ds Q :=
  first.bind (fun _ _ => trivial) second

/-- After a step that meets no clause. -/
theorem Takes.plain {p : Parser α} {f : α → Parser β} (first : Takes L p F ts [] P)
    (joins : ∀ rest, G (nextKind rest) → F (nextKind (us ++ rest))) (second : ∀ a, P a → Takes L (f a) G us ds Q) :
    Takes L (p >>= f) G (ts ++ us) ds Q := first.bind joins second

/-- Before a step that reads nothing. -/
theorem Takes.last {p : Parser α} {f : α → Parser β} (first : Takes L p F ts cs P) (next : ∀ k, G k → F k)
    (second : ∀ a, P a → Takes L (f a) G [] [] Q) : Takes L (p >>= f) G ts cs Q := by
  have bound : Takes L (p >>= f) G (ts ++ []) (cs ++ []) Q := first.bind (fun _ here => next _ here) second
  rwa [List.append_nil, List.append_nil] at bound

theorem Takes.mono {P' : α → Prop} {p : Parser α} (takes : Takes L p F ts cs P) (next : ∀ k, G k → F k)
    (h : ∀ a, P a → P' a) : Takes L p G ts cs P' := by
  intro s rest whole level tokens here permits
  obtain ⟨a, read, good⟩ := takes s rest whole level tokens (next _ here) permits
  exact ⟨a, read, h a good⟩

theorem Takes.map {p : Parser α} {f : α → β} (takes : Takes L p F ts cs P) (h : ∀ a, P a → Q (f a)) :
    Takes L (f <$> p) F ts cs Q := by
  intro s rest whole level tokens here permits
  obtain ⟨a, read, good⟩ := takes s rest whole level tokens here permits
  refine ⟨f a, ?_, h a good⟩
  change (p >>= fun a => Pure.pure (f a)) s = _
  exact bind_eq read

theorem accept_found {k : TokenKind} {t : Token} (kind : t.kind = k) : Takes L (accept k) F [t] [] (· = some t) := by
  intro s rest whole _ tokens _ _
  have next : s.next = t := by rw [ParserState.next, tokens, List.cons_append]
  refine ⟨some t, ?_, rfl⟩
  rw [accept_eq whole, next, if_pos kind, tokens]
  rfl

theorem accept_other {k : TokenKind} : Takes L (accept k) (· ≠ k) [] [] (· = none) :=
  .look (fun s whole next => by rw [accept_eq whole, if_neg next]) rfl

theorem sees_other {k : TokenKind} : Takes L (sees k) (· ≠ k) [] [] (· = false) :=
  .look (fun s whole next => by rw [sees_eq whole, decide_eq_false next]) rfl

theorem sees_found {k : TokenKind} : Takes L (sees k) (· = k) [] [] (· = true) :=
  .look (fun s whole next => by rw [sees_eq whole, decide_eq_true next]) rfl

theorem expect_found {k : TokenKind} {t : Token} (kind : t.kind = k) (what : String) :
    Takes L (expect k what) F [t] [] (· = t) := by
  refine (accept_found kind).token ?_
  rintro _ rfl
  exact .pure rfl

theorem expectSymbol_found {x : Symbol} {t : Token} (kind : t.kind = .symbol x) :
    Takes L (expectSymbol x) F [t] [] (· = t) := expect_found kind _

/-- One of some symbols is found, with what one of the entries for it stands for. -/
theorem acceptAny_found {choices : List (Symbol × α)} {x : Symbol} {t : Token} (kind : t.kind = .symbol x)
    (among : x ∈ choices.map Prod.fst) :
    Takes L (acceptAny choices) F [t] [] fun found => ∃ c ∈ choices, found = some (t, c.2) := by
  induction choices with
  | nil => cases among
  | cons c others ih =>
    obtain ⟨y, a⟩ := c
    by_cases same : y = x
    · refine (accept_found (same ▸ kind)).token ?_
      rintro _ rfl
      exact .pure ⟨(y, a), List.mem_cons_self, rfl⟩
    · have later : x ∈ others.map Prod.fst := by simpa [Ne.symm same] using among
      refine Takes.skip (F := (· ≠ .symbol y)) accept_other ?_ ?_
      · intro rest _ clash
        exact same (TokenKind.symbol.inj (clash.symm.trans kind))
      · rintro _ rfl
        refine (ih later).mono (fun _ h => h) ?_
        rintro _ ⟨c, member, rfl⟩
        exact ⟨c, List.mem_cons_of_mem _ member, rfl⟩

/-- A kind that is none of some symbols. -/
abbrev Stops (signs : List Symbol) (k : TokenKind) : Prop := ∀ x ∈ signs, k ≠ .symbol x

theorem stops_symbol {signs : List Symbol} {k : TokenKind} {x : Symbol} (sign : k = .symbol x) (clear : x ∉ signs) :
    Stops signs k := by
  intro y among same
  exact clear (TokenKind.symbol.inj (sign.symm.trans same) ▸ among)

theorem acceptAny_other {choices : List (Symbol × α)} :
    Takes L (acceptAny choices) (Stops (choices.map Prod.fst)) [] [] (· = none) := by
  induction choices with
  | nil => exact .pure rfl
  | cons c others ih =>
    refine Takes.skip (F := (· ≠ .symbol c.1)) accept_other (fun _ next => next c.1 List.mem_cons_self) ?_
    rintro _ rfl
    exact ih.mono (fun k next x among => next x (List.mem_cons_of_mem _ among)) fun _ h => h

/-- Some rounds of a loop, `k` of them, read some tokens and come to a value as `P` says. -/
def Turns (L : Nat → Prop) (round : σ → Parser (σ ⊕ α)) (F : TokenKind → Prop) (x : σ) (ts : List Token)
    (cs : List Clause) (k : Nat) (P : σ → Prop) : Prop :=
  ∀ s rest fuel, s.IsWhole → L s.depth → s.cursor.tokens = ts ++ rest → F (nextKind rest) → s.PermitsAll cs →
    ∃ y, rounds round (fuel + k) x s = rounds round fuel y ((s.meetAll cs).past rest) ∧ P y

variable {round : σ → Parser (σ ⊕ α)} {x : σ} {k : Nat} {I J : σ → Prop}

theorem Turns.none (h : I x) : Turns L round F x [] [] 0 I := by
  intro s rest fuel _ _ tokens _ _
  have same : s.past rest = s := ParserState.past_self tokens
  refine ⟨x, ?_, h⟩
  change rounds round fuel x s = rounds round fuel x (s.past rest)
  rw [same]

theorem Turns.more (before : Turns L round F x ts cs k I)
    (joins : ∀ rest, G (nextKind rest) → F (nextKind (us ++ rest)))
    (last : ∀ y, I y → Takes L (round y) G us ds fun r => ∃ z, r = .inl z ∧ J z) :
    Turns L round G x (ts ++ us) (cs ++ ds) (k + 1) J := by
  intro s rest fuel whole level tokens next permits
  obtain ⟨here, there⟩ := ParserState.permitsAll_append.mp permits
  rw [List.append_assoc] at tokens
  obtain ⟨y, turned, good⟩ := before s (us ++ rest) (fuel + 1) whole level tokens (joins rest next) here
  obtain ⟨_, read, z, rfl, good'⟩ := last y good ((s.meetAll cs).past (us ++ rest)) rest (whole.onward _ _ tokens)
    (ParserState.meetAll_depth (s := s) ▸ level) rfl next ((ParserState.permitsAll_past _).mpr there)
  refine ⟨z, ?_, good'⟩
  rw [Nat.add_comm k 1, ← Nat.add_assoc, turned, rounds, bind_eq read, ParserState.meetAll_past,
    ParserState.meetAll_append]
  rfl

/-- A loop that ends within its bound. -/
theorem Turns.ends {fuel : Nat} (turns : Turns L round F x ts cs k I) (enough : k < fuel)
    (joins : ∀ rest, G (nextKind rest) → F (nextKind (us ++ rest)))
    (last : ∀ y, I y → Takes L (round y) G us ds fun r => ∃ a, r = .inr a ∧ P a) :
    Takes L (rounds round fuel x) G (ts ++ us) (cs ++ ds) P := by
  intro s rest whole level tokens next permits
  obtain ⟨here, there⟩ := ParserState.permitsAll_append.mp permits
  rw [List.append_assoc] at tokens
  obtain ⟨extra, rfl⟩ : ∃ extra, fuel = extra + 1 + k := ⟨fuel - k - 1, by omega⟩
  obtain ⟨y, turned, good⟩ := turns s (us ++ rest) (extra + 1) whole level tokens (joins rest next) here
  obtain ⟨_, read, a, rfl, good'⟩ := last y good ((s.meetAll cs).past (us ++ rest)) rest (whole.onward _ _ tokens)
    (ParserState.meetAll_depth (s := s) ▸ level) rfl next ((ParserState.permitsAll_past _).mpr there)
  refine ⟨a, ?_, good'⟩
  rw [turned, rounds, bind_eq read, ParserState.meetAll_past, ParserState.meetAll_append]
  rfl

/-- A loop whose last round reads nothing. -/
theorem Turns.stops {fuel : Nat} (turns : Turns L round F x ts cs k I) (enough : k < fuel)
    (next : ∀ k, G k → F k) (last : ∀ y, I y → Takes L (round y) G [] [] fun r => ∃ a, r = .inr a ∧ P a) :
    Takes L (rounds round fuel x) G ts cs P := by
  have ends : Takes L (rounds round fuel x) G (ts ++ []) (cs ++ []) P :=
    turns.ends enough (fun rest here => next _ here) last
  rwa [List.append_nil, List.append_nil] at ends

section

variable {γ : Type} {E : List Token → γ → Prop} {view : α → γ} {ok : List γ → Prop} {bs : List γ} {fuel : Nat}
  {round : List α → Parser (List α ⊕ List α)} {t : Token} {close : Symbol}

/-- Rounds that read elements with a comma after each. -/
theorem separated_turns (front : ∀ {bs b}, ok (bs ++ [b]) → ok bs)
    (onward : ∀ {before us b t}, E us b → us.length < fuel → t.kind = .symbol .comma →
      ok (before.reverse.map view ++ [b]) → Takes L (round before) Any (us ++ [t]) [] fun r =>
        ∃ as, r = .inl as ∧ as.reverse.map view = before.reverse.map view ++ [b])
    (separated : Separated E ts bs) (fine : ok bs) (short : ts.length < fuel) (comma : t.kind = .symbol .comma) :
    ∃ k, k ≤ ts.length + 1 ∧ Turns L round Any [] (ts ++ [t]) [] k (·.reverse.map view = bs) := by
  induction separated generalizing t with
  | @one ts b first =>
    refine ⟨1, by omega, ?_⟩
    have turned : Turns L round Any [] ([] ++ (ts ++ [t])) ([] ++ []) 1 (·.reverse.map view = [b]) := by
      refine (Turns.none (F := Any) (I := (· = [])) rfl).more (fun _ _ => trivial) ?_
      rintro _ rfl
      exact onward first short comma fine
    exact turned
  | @more us vs as b u before comma' last ih =>
    rw [List.length_append, List.length_cons] at short
    obtain ⟨k, count, turns⟩ := ih (front fine) (by omega) comma'
    refine ⟨k + 1, ?_, ?_⟩
    · rw [List.length_append, List.length_cons]
      omega
    · have turned : Turns L round Any [] ((us ++ [u]) ++ (vs ++ [t])) ([] ++ []) (k + 1)
          (·.reverse.map view = as ++ [b]) := by
        refine turns.more (fun _ _ => trivial) fun before same => ?_
        rw [← same] at fine ⊢
        exact onward last (by omega) comma fine
      simpa using turned

/-- A loop over elements with commas between them, through the closing symbol. -/
theorem separated_ends (front : ∀ {bs b}, ok (bs ++ [b]) → ok bs)
    (onward : ∀ {before us b t}, E us b → us.length < fuel → t.kind = .symbol .comma →
      ok (before.reverse.map view ++ [b]) → Takes L (round before) Any (us ++ [t]) [] fun r =>
        ∃ as, r = .inl as ∧ as.reverse.map view = before.reverse.map view ++ [b])
    (ends : ∀ {before us b t}, E us b → us.length < fuel → t.kind = .symbol close →
      ok (before.reverse.map view ++ [b]) → Takes L (round before) Any (us ++ [t]) [] fun r =>
        ∃ as, r = .inr as ∧ as.map view = before.reverse.map view ++ [b])
    (separated : Separated E ts bs) (fine : ok bs) (short : ts.length < fuel) (closed : t.kind = .symbol close) :
    Takes L (rounds round fuel []) Any (ts ++ [t]) [] (·.map view = bs) := by
  cases separated with
  | @one _ b first =>
    have ended : Takes L (rounds round fuel []) Any ([] ++ (ts ++ [t])) ([] ++ []) (·.map view = [b]) := by
      refine (Turns.none (F := Any) (I := (· = [])) rfl).ends (by omega) (fun _ _ => trivial) ?_
      rintro _ rfl
      exact ends first short closed fine
    exact ended
  | @more us vs as b u before comma last =>
    rw [List.length_append, List.length_cons] at short
    obtain ⟨k, count, turns⟩ := separated_turns front onward before (front fine) (by omega) comma
    have ended : Takes L (rounds round fuel []) Any ((us ++ [u]) ++ (vs ++ [t])) ([] ++ [])
        (·.map view = as ++ [b]) := by
      refine turns.ends (by omega) (fun _ _ => trivial) fun before same => ?_
      rw [← same] at fine ⊢
      exact ends last (by omega) closed fine
    simpa using ended

/-- Elements with commas between them, through the closing symbol. -/
theorem separated_takes (view : α → γ) (ok : List γ → Prop) {element : List α → Parser α}
    {kinds : TokenKind → Bool} (front : ∀ {bs b}, ok (bs ++ [b]) → ok bs) (begins : ∀ {us b}, E us b → Begins kinds us)
    (other : kinds (.symbol close) = false) (apart : close ≠ .comma)
    (each : ∀ {before us b}, E us b → us.length < fuel → ok (before.reverse.map view ++ [b]) →
      Takes L (element before) (fun k => k = .symbol .comma ∨ k = .symbol close) us [] (view · = b))
    (listed : Listed E ts bs) (fine : ok bs) (short : ts.length < fuel) (closed : t.kind = .symbol close) :
    Takes L (separated element close fuel) Any (ts ++ [t]) [] (·.map view = bs) := by
  cases listed with
  | none =>
    refine (accept_found closed).token ?_
    rintro _ rfl
    exact .pure rfl
  | some elements =>
    have first : Begins kinds ts := by
      clear short fine
      induction elements with
      | one first => exact begins first
      | more _ _ _ ih => exact ih.append
    refine Takes.skip (F := (· ≠ .symbol close)) accept_other (fun rest _ same => ?_) ?_
    · have opens : kinds (nextKind ((ts ++ [t]) ++ rest)) = true := first.append.nextKind rest
      rw [same, other] at opens
      cases opens
    · rintro _ rfl
      refine separated_ends front ?_ ?_ elements fine short closed
      · intro before us b t good short comma fine
        refine (each good short fine).bind (fun _ _ => .inl comma) fun a same => (accept_found comma).token ?_
        rintro _ rfl
        exact .pure ⟨_, rfl, by simp [same]⟩
      · intro before us b t good short closed fine
        refine (each good short fine).bind (fun _ _ => .inr closed) fun a same => ?_
        refine Takes.skip (F := (· ≠ .symbol .comma)) accept_other (fun _ _ same => ?_) ?_
        · exact apart (TokenKind.symbol.inj (closed.symm.trans same))
        · rintro _ rfl
          refine (expectSymbol_found closed).token ?_
          rintro _ rfl
          exact .pure ⟨_, rfl, by simp [same]⟩

end

section

variable {E : List Token → Form → Prop} {f : Form} {fuel : Nat}

/-- A chain is its first operand and rounds that read a sign and an operand each. -/
theorem chain_turns {signs stops : List Symbol} (chain : Chain signs E ts f)
    (apart : ∀ x ∈ signs, x ∉ stops) (short : ts.length < fuel) :
    ∃ us vs g k, ts = us ++ vs ∧ E us g ∧ k ≤ vs.length ∧
      (∀ rest, Stops stops (nextKind rest) → Stops stops (nextKind (vs ++ rest))) ∧
      ∀ round : Expr → Parser (Expr ⊕ Expr), (∀ left us x t g, x ∈ signs → t.kind = .symbol x → E us g →
        us.length < fuel → Takes L (round left) (Stops stops) (t :: us) [] fun r => ∃ e, r = .inl e ∧ e.form = .value) →
      ∀ first, first.form = g → Turns L round (Stops stops) first vs [] k (·.form = f) := by
  induction chain with
  | @one ts f first =>
    exact ⟨ts, [], f, 0, (List.append_nil ts).symm, first, Nat.le_refl 0, fun _ next => next,
      fun _ _ _ good => .none good⟩
  | @more ts ws f h x t left among sign right ih =>
    rw [List.length_append, List.length_cons] at short
    obtain ⟨us, vs, g, k, rfl, operand, count, joins, turns⟩ := ih (by omega)
    have clear (rest : List Token) : Stops stops (nextKind (t :: ws ++ rest)) := stops_symbol sign (apart x among)
    refine ⟨us, vs ++ t :: ws, g, k + 1, List.append_assoc .., operand, ?_, ?_, ?_⟩
    · rw [List.length_append, List.length_cons]
      omega
    · intro rest _
      rw [List.append_assoc]
      exact joins _ (clear rest)
    · intro round onward first good
      exact (turns round onward first good).more (fun rest _ => clear rest) fun y _ =>
        onward y ws x t h among sign right (by omega)

theorem leftToRight_takes {operators : List (Symbol × (Position → Expr → Expr → Expr))} {signs stops : List Symbol}
    {operand : Parser Expr}
    (operands : ∀ {ts f}, E ts f → ts.length < fuel → Takes L operand (Stops stops) ts [] (·.form = f))
    (same : operators.map Prod.fst = signs)
    (values : ∀ o ∈ operators, ∀ place left right, (o.2 place left right).form = .value)
    (apart : ∀ x ∈ signs, x ∉ stops) (chain : Chain signs E ts f) (short : ts.length < fuel) :
    Takes L (leftToRight operators operand fuel) (Stops (signs ++ stops)) ts [] (·.form = f) := by
  obtain ⟨us, vs, g, k, rfl, first, count, joins, turns⟩ := chain_turns (L := L) chain apart short
  rw [List.length_append] at short
  have weaker (k : TokenKind) (next : Stops (signs ++ stops) k) : Stops stops k := fun x stop =>
    next x (List.mem_append_right _ stop)
  refine (operands first (by omega)).bind (fun rest next => joins rest (weaker _ next)) fun e good => ?_
  refine (turns _ ?_ e good).stops (by omega) weaker ?_
  · intro left ws x t h among sign right short
    refine (acceptAny_found sign (same ▸ among)).token ?_
    rintro _ ⟨o, member, rfl⟩
    exact (operands right short).last (fun _ next => next) fun e _ => .pure ⟨_, rfl, values o member _ _ _⟩
  · intro y good
    refine Takes.last acceptAny_other (fun k next x among => ?_) ?_
    · exact next x (List.mem_append_left _ (same ▸ among))
    · rintro _ rfl
      exact .pure ⟨y, rfl, good⟩

/-- The symbols that go on with a postfixed phrase. -/
abbrev trailers : List Symbol := [.dot, .openBracket, .openParen]

/-- The symbols that go on with a disjunction. -/
abbrev operators : List Symbol :=
  [.either] ++ ([.both] ++ ([.equal, .notEqual] ++ ([.less, .greater, .atMost, .atLeast] ++
    ([.plus, .minus] ++ ([.star, .slash, .percent] ++ trailers)))))

theorem disjunction_takes {operand : Parser Expr} (operands : ∀ {ts f}, Phrase.Derives .unary ts f → ts.length < fuel →
      Takes L operand (Stops trailers) ts [] (·.form = f))
    (either : Phrase.Derives .either ts f) (short : ts.length < fuel) :
    Takes L (disjunction operand fuel) (Stops operators) ts [] (·.form = f) := by
  cases either with
  | either chain =>
  refine leftToRight_takes (fun both short => ?_) rfl (by simp [Expr.form]) (by decide) chain short
  cases both with
  | both chain =>
  refine leftToRight_takes (fun equality short => ?_) rfl (by simp [Expr.form]) (by decide) chain short
  cases equality with
  | equality chain =>
  refine leftToRight_takes (fun compare short => ?_) rfl (by simp [equality, operator, Expr.form]) (by decide)
    chain short
  cases compare with
  | compare chain =>
  refine leftToRight_takes (fun additive short => ?_) rfl (by simp [comparison, operator, Expr.form]) (by decide) chain
    short
  cases additive with
  | additive chain =>
  refine leftToRight_takes (fun term short => ?_) rfl (by simp [additive, operator, Expr.form]) (by decide) chain short
  cases term with
  | term chain =>
  exact leftToRight_takes operands rfl (by simp [multiplicative, operator, Expr.form]) (by decide) chain short

theorem fromOperand_takes {operand : Parser Expr} (operands : ∀ {ts f}, Phrase.Derives .unary ts f → ts.length < fuel →
      Takes L operand (Stops trailers) ts [] (·.form = f))
    (expr : Phrase.Derives .expr ts f) (short : ts.length < fuel) :
    Takes L (fromOperand operand fuel) (Stops (.colon :: operators)) ts [] (·.form = f) := by
  have weaker (k : TokenKind) (next : Stops (.colon :: operators) k) : Stops operators k := fun x stop =>
    next x (List.mem_cons_of_mem _ stop)
  cases expr with
  | single only =>
    refine (disjunction_takes operands only short).last weaker fun e good => ?_
    refine Takes.last accept_other (fun k next => next .colon List.mem_cons_self) ?_
    rintro _ rfl
    exact .pure good
  | pair first sign second =>
    rw [List.length_append, List.length_cons] at short
    refine (disjunction_takes operands first (by omega)).bind (fun _ _ => stops_symbol sign (by decide)) fun e _ => ?_
    refine (accept_found sign).token ?_
    rintro _ rfl
    exact (disjunction_takes operands second (by omega)).last weaker fun _ _ => .pure rfl

/-- What is known of the parser of whole expressions inside brackets. -/
abbrev TakesExprs (L : Nat → Prop) (fuel : Nat) (expression : Parser Expr) : Prop :=
  ∀ {ts f}, Phrase.Derives .expr ts f → ts.length < fuel →
    Takes L expression (Stops (.colon :: operators)) ts [] (·.form = f)

theorem second_kind {s : ParserState} : s.second.kind = nextKind s.cursor.tokens.tail := ParserState.next_kind _

theorem acceptTwo_found {j k : TokenKind} {t u : Token} (first : t.kind = j) (second : u.kind = k) :
    Takes L (acceptTwo j k) F [t, u] [] (· = some (t, u)) := by
  intro s rest whole _ tokens _ _
  have next : s.next = t := by rw [ParserState.next, tokens]; rfl
  have after : s.second = u := by rw [ParserState.second, ParserState.next, ParserState.past_tokens, tokens]; rfl
  refine ⟨_, ?_, rfl⟩
  rw [acceptTwo_eq whole, next, after, if_pos ⟨first, second⟩, tokens]
  rfl

/-- Two tokens that do not both come next are not read. -/
theorem Takes.notTwo {j k : TokenKind} {p : Option (Token × Token) → Parser α}
    (other : ∀ rest, F (nextKind rest) → nextKind (ts ++ rest) = j → nextKind (ts ++ rest).tail ≠ k)
    (second : Takes L (p none) F ts cs P) : Takes L (acceptTwo j k >>= p) F ts cs P := by
  intro s rest whole level tokens next permits
  have bare : acceptTwo j k s = .ok (none, s) := by
    rw [acceptTwo_eq whole, ParserState.next_kind, second_kind, tokens]
    exact if_neg fun both => other rest next both.1 both.2
  rw [bind_eq bare]
  exact second s rest whole level tokens next permits

/-- No expression begins like a keyword argument. -/
theorem untagged {expr : List Token} (derives : Phrase.Derives .expr expr f) :
    ∃ t us, expr = t :: us ∧ (t.kind = .ident → ∀ rest, nextKind rest ≠ .symbol .assign →
      nextKind (us ++ rest) ≠ .symbol .assign) := by
  refine derives.expr_leading (P := fun ts => ∃ t us, ts = t :: us ∧ (t.kind = .ident → ∀ rest,
    nextKind rest ≠ .symbol .assign → nextKind (us ++ rest) ≠ .symbol .assign)) ?_ ?_ ?_
  · rintro _ vs x u ⟨t, us, rfl, clear⟩ sign other
    refine ⟨t, us ++ u :: vs, rfl, fun ident rest _ => ?_⟩
    rw [List.append_assoc]
    exact clear ident _ fun same => other (TokenKind.symbol.inj (sign.symm.trans same))
  · intro ts f primary
    cases primary with
    | @constant t constant =>
      refine ⟨t, [], rfl, fun ident => ?_⟩
      rw [ident] at constant
      cases constant
    | «variable» => exact ⟨_, [], rfl, fun _ _ next => next⟩
    | call _ opened => exact ⟨_, _, rfl, fun _ _ _ same => nomatch opened.symm.trans same⟩
    | group opened | list opened | map opened => exact ⟨_, _, rfl, fun ident => nomatch opened.symm.trans ident⟩
  · intro ts x t _ sign
    exact ⟨t, ts, rfl, fun ident => nomatch sign.symm.trans ident⟩

theorem argument_takes {expression : Parser Expr} (expressions : TakesExprs L fuel expression)
    (arg : Phrase.Derives .arg ts f) (short : ts.length < fuel) :
    Takes L (do
      let tag ← acceptTwo .ident (.symbol .assign)
      let value ← expression
      pure (tag.map (·.1.text), value)) (fun k => k = .symbol .comma ∨ k = .symbol .closeParen) ts []
      fun _ => Form.value = f := by
  have weaker (k : TokenKind) (next : k = .symbol .comma ∨ k = .symbol .closeParen) :
      Stops (.colon :: operators) k := by
    rcases next with next | next <;> exact stops_symbol next (by decide)
  cases arg with
  | @keyword us _ name sign named signed value =>
    rw [List.length_cons, List.length_cons] at short
    refine (acceptTwo_found named signed).tokens ?_
    rintro _ rfl
    exact (expressions value (by omega)).last weaker fun _ _ => .pure rfl
  | positional value =>
    refine Takes.notTwo (fun rest next ident => ?_) ((expressions value short).last weaker fun _ _ => .pure rfl)
    obtain ⟨t, us, rfl, clear⟩ := untagged value
    refine clear ident rest ?_
    rcases next with next | next <;> exact next ▸ nofun

theorem arguments_takes {expression : Parser Expr} (expressions : TakesExprs L fuel expression) {fs : List Form}
    (args : Listed (Phrase.Derives .arg) ts fs) (short : ts.length < fuel) {t : Token}
    (closed : t.kind = .symbol .closeParen) : Takes L (arguments expression fuel) Any (ts ++ [t]) [] fun _ => True := by
  refine Takes.last (F := Any) (separated_takes (fun _ => .value) (fun _ => True) (fun _ => trivial)
    Phrase.Derives.arg_begins rfl nofun ?_ args trivial short closed) (fun _ _ => trivial) fun _ _ => .pure trivial
  exact fun arg short _ => argument_takes expressions arg short

/-- Looking at the next token tells what the text spells there. -/
theorem Takes.peek {p : Token → Parser α} {t : Token} (next : t.IsSpelled → Takes L (p t) F (t :: ts) cs P) :
    Takes L (peek >>= p) F (t :: ts) cs P := by
  intro s rest whole level tokens follow permits
  have here : s.next = t := by rw [ParserState.next, tokens]; rfl
  rw [bind_eq (peek_eq whole), here]
  exact next (whole.spelled t (tokens ▸ List.mem_cons_self)) s rest whole level tokens follow permits

theorem advance_found {t : Token} : Takes L advance F [t] [] fun u => u = t ∧ t.IsSpelled := by
  intro s rest whole _ tokens _ _
  have here : s.next = t := by rw [ParserState.next, tokens]; rfl
  refine ⟨t, ?_, rfl, whole.spelled t (tokens ▸ List.mem_cons_self)⟩
  rw [advance_eq whole, here, tokens]
  rfl

/-- Expressions with commas between them, through the closing symbol. -/
theorem items_takes {expression : Parser Expr} {close : Symbol} (expressions : TakesExprs L fuel expression)
    (other : TokenKind.opensPhrase (.symbol close) = false) (apart : close ∉ Symbol.comma :: .colon :: operators)
    {fs : List Form} (items : Listed (Phrase.Derives .expr) ts fs) (short : ts.length < fuel) {t : Token}
    (closed : t.kind = .symbol close) :
    Takes L (separated (fun _ => expression) close fuel) Any (ts ++ [t]) [] fun _ => True := by
  have separate : close ≠ .comma := fun same => apart (same ▸ List.mem_cons_self)
  refine (separated_takes Expr.form (fun _ => True) (fun _ => trivial)
    Phrase.Derives.expr_begins other separate ?_ items trivial short closed).mono (fun _ _ => trivial)
      fun _ _ => trivial
  intro _ us f derives short _
  refine (expressions derives short).mono (fun k next => ?_) fun _ good => good
  rcases next with next | next
  · exact stops_symbol next (by decide)
  · exact stops_symbol next fun among => apart (List.mem_cons_of_mem _ among)

theorem no_literal {t : Token} (spelled : t.IsSpelled) {k : TokenKind} (kind : t.kind = k)
    (other : k.isConstant = false) : t.literal = none :=
  Option.not_isSome_iff_eq_none.mp (by rw [spelled.literal, kind, other]; exact Bool.false_ne_true)

/-- A primary that is not followed by arguments. -/
theorem primary_takes {expression : Parser Expr} (expressions : TakesExprs L fuel expression)
    (derives : Phrase.Derives .primary ts f) (short : ts.length < fuel + 2) :
    Takes L (primary expression fuel) (· ≠ .symbol .openParen) ts [] (·.form = f) := by
  cases derives with
  | @constant t constant =>
    refine Takes.peek fun spelled => ?_
    obtain ⟨value, literal⟩ := Option.isSome_iff_exists.mp (spelled.literal.trans constant)
    rw [literal]
    refine advance_found.token fun _ _ => .pure rfl
  | @«variable» t named =>
    refine Takes.peek fun spelled => ?_
    rw [no_literal spelled named rfl, named]
    refine advance_found.token fun _ _ => Takes.last accept_other (fun _ next => next) ?_
    rintro _ rfl
    exact .pure rfl
  | @call us fs t opening closing named opened args closed =>
    refine Takes.peek fun spelled => ?_
    rw [no_literal spelled named rfl, named]
    refine advance_found.token fun _ _ => (accept_found opened).token ?_
    rintro _ rfl
    simp only [List.length_cons, List.length_append] at short
    exact (arguments_takes expressions args (by omega) closed).last (fun _ _ => trivial) fun _ _ => .pure rfl
  | @group us f opening closing opened inner closed =>
    refine Takes.peek fun spelled => ?_
    rw [no_literal spelled opened rfl, opened]
    simp only [List.length_cons, List.length_append] at short
    refine advance_found.token fun _ _ => (expressions inner (by omega)).plain (fun _ _ =>
      stops_symbol closed (by decide)) fun _ _ => ?_
    exact (expectSymbol_found closed).token fun _ _ => .pure rfl
  | @list us fs opening closing opened items closed =>
    refine Takes.peek fun spelled => ?_
    rw [no_literal spelled opened rfl, opened]
    simp only [List.length_cons, List.length_append] at short
    refine advance_found.token fun _ _ => ?_
    exact (items_takes expressions rfl (by decide) items (by omega) closed).last (fun _ _ => trivial)
      fun _ _ => .pure rfl
  | @map us fs opening closing opened entries closed =>
    refine Takes.peek fun spelled => ?_
    rw [no_literal spelled opened rfl, opened]
    simp only [List.length_cons, List.length_append] at short
    refine advance_found.token fun _ _ => ?_
    exact (items_takes expressions rfl (by decide) entries (by omega) closed).last (fun _ _ => trivial)
      fun _ _ => .pure rfl

/-- Members, calls and elements after a primary are read in rounds. -/
theorem trailed_turns {primary arg expr : List Token → Form → Prop} (trailed : Trailed primary arg expr ts f)
    (short : ts.length < fuel + 1) :
    ∃ us vs g k, ts = us ++ vs ∧ primary us g ∧ k ≤ vs.length ∧
      (∀ rest, nextKind rest ≠ .symbol .openParen → nextKind (vs ++ rest) ≠ .symbol .openParen) ∧
      ∀ round : Expr → Parser (Expr ⊕ Expr),
      (∀ e dot name, dot.kind = .symbol .dot → name.kind = .ident → Takes L (round e) (· ≠ .symbol .openParen)
        [dot, name] [] fun r => ∃ e, r = .inl e ∧ e.form = .member) →
      (∀ e dot name opening closing us fs, dot.kind = .symbol .dot → name.kind = .ident →
        opening.kind = .symbol .openParen → Listed arg us fs → us.length < fuel → closing.kind = .symbol .closeParen →
        Takes L (round e) (· ≠ .symbol .openParen) (dot :: name :: opening :: (us ++ [closing])) [] fun r =>
          ∃ e, r = .inl e ∧ e.form = .value) →
      (∀ e opening closing us g, opening.kind = .symbol .openBracket → expr us g → us.length < fuel →
        closing.kind = .symbol .closeBracket → Takes L (round e) (· ≠ .symbol .openParen)
          (opening :: (us ++ [closing])) [] fun r => ∃ e, r = .inl e ∧ e.form = .element) →
      ∀ first, first.form = g → Turns L round (· ≠ .symbol .openParen) first vs [] k (·.form = f) := by
  induction trailed with
  | @bare ts f first =>
    exact ⟨ts, [], f, 0, (List.append_nil ts).symm, first, Nat.le_refl 0, fun _ next => next,
      fun _ _ _ _ _ good => .none good⟩
  | @member ts f dot name receiver dotted named ih =>
    rw [List.length_append] at short
    obtain ⟨us, vs, g, k, rfl, first, count, joins, turns⟩ := ih (by omega)
    have clear (rest : List Token) : nextKind ([dot, name] ++ rest) ≠ .symbol .openParen := fun same =>
      nomatch dotted.symm.trans same
    refine ⟨us, vs ++ [dot, name], g, k + 1, List.append_assoc .., first, ?_, ?_, ?_⟩
    · simp only [List.length_append, List.length_cons, List.length_nil]
      omega
    · intro rest _
      rw [List.append_assoc]
      exact joins _ (clear rest)
    · intro round reads sends finds e good
      exact (turns round reads sends finds e good).more (fun rest _ => clear rest) fun y _ =>
        reads y dot name dotted named
  | @send ts ws f fs dot name opening closing receiver dotted named opened args closed ih =>
    simp only [List.length_append, List.length_cons, List.length_nil] at short
    obtain ⟨us, vs, g, k, rfl, first, count, joins, turns⟩ := ih (by omega)
    have clear (rest : List Token) :
        nextKind (dot :: name :: opening :: (ws ++ [closing]) ++ rest) ≠ .symbol .openParen := fun same =>
      nomatch dotted.symm.trans same
    refine ⟨us, vs ++ dot :: name :: opening :: (ws ++ [closing]), g, k + 1, List.append_assoc .., first, ?_, ?_, ?_⟩
    · simp only [List.length_append, List.length_cons, List.length_nil]
      omega
    · intro rest _
      rw [List.append_assoc]
      exact joins _ (clear rest)
    · intro round reads sends finds e good
      exact (turns round reads sends finds e good).more (fun rest _ => clear rest) fun y _ =>
        sends y dot name opening closing ws fs dotted named opened args (by omega) closed
  | @element ts ws f h opening closing receiver opened key closed ih =>
    simp only [List.length_append, List.length_cons, List.length_nil] at short
    obtain ⟨us, vs, g, k, rfl, first, count, joins, turns⟩ := ih (by omega)
    have clear (rest : List Token) : nextKind (opening :: (ws ++ [closing]) ++ rest) ≠ .symbol .openParen := fun same =>
      nomatch opened.symm.trans same
    refine ⟨us, vs ++ opening :: (ws ++ [closing]), g, k + 1, List.append_assoc .., first, ?_, ?_, ?_⟩
    · simp only [List.length_append, List.length_cons, List.length_nil]
      omega
    · intro rest _
      rw [List.append_assoc]
      exact joins _ (clear rest)
    · intro round reads sends finds e good
      exact (turns round reads sends finds e good).more (fun rest _ => clear rest) fun y _ =>
        finds y opening closing ws h opened key (by omega) closed

/-- A primary with all that follows it. -/
theorem postfixed_takes {expression : Parser Expr} (expressions : TakesExprs L fuel expression)
    (derives : Phrase.Derives .postfixed ts f) (short : ts.length < fuel + 1) :
    Takes L (postfixed expression fuel) (Stops trailers) ts [] (·.form = f) := by
  cases derives with
  | postfixed trailed =>
  obtain ⟨us, vs, g, k, rfl, first, count, joins, turns⟩ := trailed_turns (L := L) trailed short
  rw [List.length_append] at short
  have nonempty := first.primary_begins.length_pos
  have unopened (k : TokenKind) (next : Stops trailers k) : k ≠ .symbol .openParen := next .openParen (by decide)
  refine (primary_takes expressions first (by omega)).bind (fun rest next => joins rest (unopened _ next)) fun e good =>
    ?_
  refine (turns _ ?_ ?_ ?_ e good).stops (by omega) unopened ?_
  · intro e dot name dotted named
    refine (accept_found dotted).token ?_
    rintro _ rfl
    refine (expect_found named _).token ?_
    rintro _ rfl
    refine Takes.last (accept_other (k := .symbol .openParen)) (fun _ next => next) ?_
    rintro _ rfl
    exact .pure ⟨_, rfl, rfl⟩
  · intro e dot name opening closing ws fs dotted named opened args within closed
    refine (accept_found dotted).token ?_
    rintro _ rfl
    refine (expect_found named _).token ?_
    rintro _ rfl
    refine (accept_found opened).token ?_
    rintro _ rfl
    exact (arguments_takes expressions args within closed).last (fun _ _ => trivial) fun _ _ => .pure ⟨_, rfl, rfl⟩
  · intro e opening closing ws h opened key within closed
    refine Takes.skip (F := (· ≠ .symbol .dot)) accept_other (fun _ _ same => nomatch opened.symm.trans same) ?_
    rintro _ rfl
    refine (accept_found opened).token ?_
    rintro _ rfl
    refine (expressions key within).plain (fun _ _ => stops_symbol closed (by decide)) fun _ _ => ?_
    exact (expectSymbol_found closed).token fun _ _ => .pure ⟨_, rfl, rfl⟩
  · intro e good
    refine Takes.last (accept_other (k := .symbol .dot)) (fun _ next => next .dot (by decide)) ?_
    rintro _ rfl
    refine Takes.last (accept_other (k := .symbol .openBracket)) (fun _ next => next .openBracket (by decide)) ?_
    rintro _ rfl
    exact .pure ⟨e, rfl, good⟩

/-- An operand with its signs. The bound falls with each sign and with each bracket. -/
theorem unary_takes (fuel : Nat) {ts : List Token} {f : Form} (derives : Phrase.Derives .unary ts f)
    (short : ts.length < fuel) : Takes L (unary fuel) (Stops trailers) ts [] (·.form = f) := by
  induction fuel generalizing ts f with
  | zero => cases short
  | succ fuel ih =>
    cases derives with
    | @signed us f x t among sign operand =>
      rw [List.length_cons] at short
      refine (acceptAny_found sign (by simpa using among)).token ?_
      rintro _ ⟨c, _, rfl⟩
      exact (ih operand (by omega)).last (fun _ next => next) fun _ _ => .pure rfl
    | unsigned operand =>
      refine Takes.skip (F := Stops [.bang, .minus]) acceptAny_other (fun rest _ x among same => ?_) ?_
      · have opens := operand.postfixed_begins.nextKind rest
        rw [same] at opens
        obtain rfl | rfl : x = .bang ∨ x = .minus := by simpa using among
        · cases opens
        · cases opens
      · rintro _ rfl
        exact postfixed_takes (fun expr short => fromOperand_takes ih expr short) operand short

theorem expression_takes (derives : Phrase.Derives .expr ts f) (short : ts.length < fuel) :
    Takes L (expression fuel) (Stops (.colon :: operators)) ts [] (·.form = f) :=
  fromOperand_takes (unary_takes fuel) derives short

end

section

variable {fuel : Nat} {name : String}

/-- A phrase that an `elif` or an `else` does not go on with. -/
abbrev Ends (k : TokenKind) : Prop := k ≠ .keyword .elifWord ∧ k ≠ .keyword .elseWord

/-- What is known of the parser of statements inside braces. -/
abbrev TakesStmts (L : Nat → Prop) (fuel : Nat) (statement : Parser Stmt) : Prop :=
  ∀ {ts cs}, Sentence.Derives .statement ts cs → ts.length < fuel → Takes L statement Ends ts cs fun _ => True

theorem expression_ends (derives : Phrase.Derives .expr ts f) (short : ts.length < fuel) {x : Symbol}
    (clear : x ∉ Symbol.colon :: operators) {t : Token} (sign : t.kind = .symbol x) {p : Expr → Token → Parser α}
    (second : ∀ e, e.form = f → Takes L (p e t) G us cs P) :
    Takes L (expression fuel >>= fun e => expectSymbol x >>= p e) G (ts ++ t :: us) cs P := by
  refine (expression_takes derives short).bind (fun _ _ => stops_symbol sign clear) fun e good => ?_
  refine (expectSymbol_found sign).token ?_
  rintro _ rfl
  exact second e good

theorem condition_takes (rule : ConditionRule ts) (short : ts.length ≤ fuel) :
    Takes L (condition fuel) F ts [] fun _ => True := by
  cases rule with
  | mk opened test closed =>
  simp only [List.length_cons, List.length_append] at short
  refine (expectSymbol_found opened).token fun _ _ => ?_
  exact expression_ends test (by omega) (by decide) closed fun _ _ => .pure trivial

/-- What repeats is read in rounds, if each round reads one of it and the next one can follow. -/
theorem many_turns {E : List Token → List Clause → Prop} {round : List α → Parser (List α ⊕ β)} (many : Many E ts cs)
    (short : ts.length < fuel) (nonempty : ∀ {us ds}, E us ds → 0 < us.length)
    (joins : ∀ {us ds}, E us ds → ∀ rest, F (nextKind (us ++ rest)))
    (each : ∀ {us ds}, E us ds → us.length < fuel → ∀ before, Takes L (round before) F us ds fun r => ∃ z, r = .inl z) :
    ∃ k ≤ ts.length, Turns L round F [] ts cs k fun _ => True := by
  induction many with
  | none => exact ⟨0, Nat.le_refl 0, .none trivial⟩
  | more before last ih =>
    rw [List.length_append] at short ⊢
    obtain ⟨k, count, turns⟩ := ih (by omega)
    have one := nonempty last
    refine ⟨k + 1, by omega, turns.more (fun rest _ => joins last rest) fun y _ => ?_⟩
    exact (each last (by omega) y).mono (fun _ h => h) fun _ ⟨z, same⟩ => ⟨z, same, trivial⟩

theorem ends_opensStatement {k : TokenKind} (opens : k.opensStatement = true) : Ends k := by
  constructor
  · rintro rfl
    cases opens
  · rintro rfl
    cases opens

theorem block_takes {statement : Parser Stmt} (statements : TakesStmts L fuel statement)
    (derives : Sentence.Derives .block ts cs) (short : ts.length ≤ fuel) :
    Takes L (block statement fuel) F ts cs fun _ => True := by
  cases derives with
  | @block us cs opening closing opened many closed =>
  simp only [List.length_cons, List.length_append, List.length_nil] at short
  refine (expectSymbol_found opened).token fun _ _ => ?_
  have begins {us : List Token} {ds : List Clause} (one : Sentence.Derives .statement us ds) (rest : List Token) :=
    one.statement_begins.nextKind rest
  have each {us : List Token} {ds : List Clause} (one : Sentence.Derives .statement us ds) (within : us.length < fuel)
      (before : List Stmt) : Takes L (do
        if (← acceptSymbol .closeBrace).isSome then pure (.inr before.reverse)
        else if ← sees .endOfInput then unexpected "'\x7d'"
        else
          let s ← statement
          pure (.inl (s :: before))) Ends us ds fun r : List Stmt ⊕ List Stmt => ∃ z, r = .inl z := by
    refine Takes.skip (F := (· ≠ .symbol .closeBrace)) accept_other (fun rest _ same => ?_) ?_
    · cases same ▸ begins one rest
    rintro _ rfl
    refine Takes.skip (F := (· ≠ .endOfInput)) sees_other (fun rest _ same => ?_) ?_
    · cases same ▸ begins one rest
    rintro _ rfl
    exact (statements one within).last (fun _ h => h) fun _ _ => .pure ⟨_, rfl⟩
  obtain ⟨k, count, turns⟩ := many_turns (L := L) many (by omega) (fun one => one.statement_begins.length_pos)
    (fun one rest => ends_opensStatement (begins one rest)) each
  rw [← List.append_nil cs]
  refine turns.ends (by omega) (fun _ _ => ?_) fun y _ => ?_
  · change Ends closing.kind
    rw [closed]
    exact ⟨nofun, nofun⟩
  · refine (accept_found closed).token ?_
    rintro _ rfl
    exact .pure ⟨_, rfl, trivial⟩

theorem otherwise_takes {condition : Parser Expr} {body : Parser (List Stmt)} {bound : Nat}
    (conditions : ∀ {ts}, ConditionRule ts → ts.length ≤ bound → Takes L condition Any ts [] fun _ => True)
    (bodies : ∀ {ts cs}, Sentence.Derives .block ts cs → ts.length ≤ bound → Takes L body Any ts cs fun _ => True)
    (fuel : Nat) {ts : List Token} {cs : List Clause} (derives : Sentence.Derives .otherwise ts cs)
    (short : ts.length < fuel) (within : ts.length ≤ bound) :
    Takes L (otherwise condition body fuel) Ends ts cs fun _ => True := by
  induction fuel generalizing ts cs with
  | zero => cases short
  | succ fuel ih =>
    have another {us vs ws : List Token} {ds es : List Clause} (test : ConditionRule us)
        (first : Sentence.Derives .block vs ds) (others : Sentence.Derives .otherwise ws es)
        (short : us.length + (vs.length + ws.length) < fuel) (within : us.length + (vs.length + ws.length) ≤ bound) :
        Takes L (do
          let c ← condition
          let b ← body
          let rest ← otherwise condition body fuel
          pure (Otherwise.branch c b rest)) Ends (us ++ (vs ++ ws)) (ds ++ es) fun _ => True := by
      refine (conditions test (by omega)).plain (fun _ _ => trivial) fun _ _ => ?_
      refine (bodies first (by omega)).bind (fun _ _ => trivial) fun _ _ => ?_
      exact (ih others (by omega) (by omega)).last (fun _ h => h) fun _ _ => .pure trivial
    cases derives with
    | nothing =>
      refine Takes.last accept_other (fun _ next => next.1) ?_
      rintro _ rfl
      refine Takes.last accept_other (fun _ next => next.2) ?_
      rintro _ rfl
      exact .pure trivial
    | elifArm opened test first others =>
      simp only [List.length_cons, List.length_append] at short within
      refine (accept_found opened).token ?_
      rintro _ rfl
      exact another test first others (by omega) (by omega)
    | elseIfArm opened again test first others =>
      simp only [List.length_cons, List.length_append] at short within
      refine Takes.skip (F := (· ≠ .keyword .elifWord)) accept_other (fun _ _ same => nomatch opened.symm.trans same) ?_
      rintro _ rfl
      refine (accept_found opened).token ?_
      rintro _ rfl
      refine (accept_found again).token ?_
      rintro _ rfl
      exact another test first others (by omega) (by omega)
    | elseArm opened last =>
      simp only [List.length_cons] at within
      refine Takes.skip (F := (· ≠ .keyword .elifWord)) accept_other (fun _ _ same => nomatch opened.symm.trans same) ?_
      rintro _ rfl
      refine (accept_found opened).token ?_
      rintro _ rfl
      refine Takes.skip (F := (· ≠ .keyword .ifWord)) accept_other (fun rest _ => ?_) ?_
      · cases last with
        | block before => exact fun same => nomatch before.symm.trans same
      · rintro _ rfl
        exact ((bodies last (by omega)).map fun _ _ => trivial).mono (fun _ _ => trivial) fun _ h => h

theorem defaultValue_found (parameter : String) {t : Token} (constant : t.kind.isConstant = true) :
    Takes L (defaultValue parameter) F [t] [] fun _ => True := by
  unfold defaultValue
  refine advance_found.token ?_
  rintro _ ⟨rfl, spelled⟩
  obtain ⟨value, literal⟩ := Option.isSome_iff_exists.mp (spelled.literal.trans constant)
  rw [literal]
  exact .pure trivial

theorem parameter_takes {before : List ParamTree} (rule : ParameterRule ts name)
    (distinct : (before.reverse.map ParamTree.name ++ [name]).Nodup) :
    Takes L (parameter before) (fun k => k = .symbol .comma ∨ k = .symbol .closeParen) ts [] (·.name = name) := by
  have fresh : before.any (·.name == name) = false := by
    simp only [List.any_eq_false, beq_iff_eq]
    intro p among same
    refine (List.nodup_append.mp distinct).2.2 name ?_ name List.mem_cons_self rfl
    exact List.mem_map.mpr ⟨p, List.mem_reverse.mpr among, same⟩
  cases rule with
  | required named =>
    unfold parameter
    refine (expect_found named _).token ?_
    rintro _ rfl
    rw [fresh]
    refine Takes.last (accept_other (k := .symbol .assign)) (fun k next => ?_) ?_
    · rcases next with next | next <;> exact next ▸ nofun
    · rintro _ rfl
      exact .pure rfl
  | optional named signed constant =>
    unfold parameter
    refine (expect_found named _).token ?_
    rintro _ rfl
    rw [fresh]
    refine (accept_found signed).token ?_
    rintro _ rfl
    exact (defaultValue_found _ constant).last (fun _ _ => trivial) fun _ _ => .pure rfl

/-- Before a clause that changes no names. -/
theorem Takes.noted {c : Clause} {p : Parser α} (quiet : c.isLocal = true)
    (takes : c.IsAllowed → Takes L p F ts cs P) : Takes L p F ts (c :: cs) P := by
  rintro s rest whole level tokens next ⟨here, there⟩
  cases c with
  | declares => cases quiet
  | _ => exact takes here s rest whole level tokens next there

/-- A function keeps what its body declares to itself. -/
theorem inside_takes {p : Parser α} {f : α → β} (takes : Takes (· ≠ 0) p F ts cs P) (h : ∀ a, P a → Q (f a)) :
    Takes L (do
      modify fun s => { s with depth := s.depth + 1 }
      let a ← p
      modify fun s => { s with depth := s.depth - 1 }
      pure (f a)) F ts (cs.filter Clause.isLocal) Q := by
  intro s rest whole _ tokens next permits
  have quiet : ∀ c ∈ cs.filter Clause.isLocal, c.isLocal = true := fun c among => (List.mem_filter.mp among).2
  have allowed : ∀ c ∈ cs, c.IsAllowed := by
    intro c among
    by_cases here : c.isLocal = true
    · exact (ParserState.permitsAll_local quiet).mp permits c (List.mem_filter.mpr ⟨among, here⟩)
    · cases c with
      | declares => trivial
      | _ => exact absurd rfl here
  have inside : s.depth + 1 ≠ 0 := Nat.succ_ne_zero _
  obtain ⟨a, read, good⟩ := takes { s with depth := s.depth + 1 } rest ⟨whole.1, whole.2⟩ inside tokens next
    ((ParserState.permitsAll_inside inside).mpr allowed)
  refine ⟨f a, ?_, h a good⟩
  rw [ParserState.meetAll_inside inside] at read
  rw [ParserState.meetAll_local quiet]
  have deeper : (modify fun s => { s with depth := s.depth + 1 } : Parser Unit) s =
      .ok (⟨⟩, { s with depth := s.depth + 1 }) := rfl
  exact (bind_eq deeper).trans ((bind_eq read).trans rfl)

theorem function_takes (place : Position) {statement : Parser Stmt} (statements : TakesStmts (· ≠ 0) fuel statement)
    (rule : FunctionRule (Sentence.Derives .block) ts name cs) (short : ts.length ≤ fuel) :
    Takes L (function place statement fuel) F ts cs (·.name = name) := by
  cases rule with
  | @mk us vs params ds word opening closing named opened listed closed body =>
  simp only [List.length_cons, List.length_append] at short
  refine .noted rfl fun distinct => ?_
  refine (expect_found named _).token ?_
  rintro word rfl
  refine (expectSymbol_found opened).token fun _ _ => ?_
  have begins {us : List Token} {name : String} : ParameterRule us name → Begins (fun k => decide (k = .ident)) us := by
    rintro (⟨named⟩ | ⟨named⟩)
    · exact ⟨_, _, rfl, decide_eq_true named⟩
    · exact ⟨_, _, rfl, decide_eq_true named⟩
  have parameters : Takes L (separated parameter .closeParen fuel) Any (us ++ [closing]) []
      (·.map ParamTree.name = params) := by
    refine separated_takes _ _ (fun both => (List.nodup_append.mp both).1) begins rfl nofun
      (fun rule _ distinct => parameter_takes rule distinct) listed distinct (by omega) closed
  have read := parameters.plain (G := F) (fun _ _ => trivial) fun params _ =>
    inside_takes (L := L) (F := F) (f := FunctionTree.mk place word.text params) (Q := (·.name = word.text))
      (block_takes statements body (by omega)) fun _ _ => rfl
  simpa using read

/-- What is read outside functions as well as inside is read everywhere. -/
theorem Takes.split {p : Parser α} (outside : Takes (· = 0) p F ts cs P) (inside : Takes (· ≠ 0) p F ts cs P) :
    Takes L p F ts cs P := by
  intro s rest whole _ tokens next permits
  by_cases here : s.depth = 0
  · exact outside s rest whole here tokens next permits
  · exact inside s rest whole here tokens next permits

theorem outside_takes {p q : Parser α} (takes : Takes (· = 0) p F ts cs P) :
    Takes (· = 0) (do if (← get).depth = 0 then p else q) F ts cs P := by
  intro s rest whole outside tokens next permits
  change ∃ a, (if s.depth = 0 then p else q) s = _ ∧ P a
  rw [if_pos outside]
  exact takes s rest whole outside tokens next permits

theorem within_takes {p q : Parser α} (takes : Takes (· ≠ 0) q F ts cs P) :
    Takes (· ≠ 0) (do if (← get).depth = 0 then p else q) F ts cs P := by
  intro s rest whole inside tokens next permits
  change ∃ a, (if s.depth = 0 then p else q) s = _ ∧ P a
  rw [if_neg inside]
  exact takes s rest whole inside tokens next permits

/-- Inside a function a declaration changes nothing. -/
theorem Takes.undeclared {p : Parser α} {isClass : Bool} (takes : Takes (· ≠ 0) p F ts cs P) :
    Takes (· ≠ 0) p F ts (.declares name isClass :: cs) P := by
  rintro s rest whole inside tokens next ⟨_, permits⟩
  have same : s.meet (.declares name isClass) = s := if_neg inside
  change ∃ a, p s = .ok (a, ((s.meet (.declares name isClass)).meetAll cs).past rest) ∧ P a
  rw [same] at permits ⊢
  exact takes s rest whole inside tokens next permits

theorem declare_takes (place : Position) :
    Takes (· = 0) (declare name place) F [] [.declares name false] fun _ => True := by
  rintro s rest _ outside tokens _ ⟨free, _⟩
  have same : s.past rest = s := ParserState.past_self tokens
  refine ⟨⟨⟩, ?_, trivial⟩
  have run : declare name place s = .ok ((), { s with topLevel := name :: s.topLevel }) := by
    change (if name ∈ s.classes then faultAt place (.classShadowsName name)
      else set { s with topLevel := name :: s.topLevel } : Parser Unit) s = _
    rw [if_neg (free outside).1]
    rfl
  have met : (s.meetAll [.declares name false]).past rest = { s.past rest with topLevel := name :: s.topLevel } := by
    simp [ParserState.meetAll, ParserState.meet, outside, ParserState.past]
  rw [run, met, same]

theorem assignment_takes (first : Token) {target : Expr} (place : Position) {t : Token}
    (value : Phrase.expr.Derives ts f) (short : ts.length < fuel) (ended : t.kind = .symbol .semicolon) :
    Takes L (assignment first target place fuel) F (ts ++ [t]) target.form.clauses fun _ => True := by
  refine (expression_takes value short).plain (fun _ _ => stops_symbol ended (by decide)) fun value _ => ?_
  have finish {L : Nat → Prop} (target' : Target) : Takes L (do
      let semicolon ← expectSymbol .semicolon
      pure (Stmt.assign ⟨first.position.line, semicolon.position.line⟩ target' value place)) F [t] [] fun _ => True :=
    (expectSymbol_found ended).token fun _ _ => .pure trivial
  cases target with
  | «variable» name here =>
    refine .noted (c := .assigns (.variable name)) rfl fun _ => .split (outside_takes ?_) (within_takes ?_)
    · exact Takes.bind (declare_takes (F := Any) here) (fun _ _ => trivial) fun _ _ => finish _
    · exact .undeclared (finish _)
  | member => exact .noted (c := .assigns .member) rfl fun _ => finish _
  | index => exact .noted (c := .assigns .element) rfl fun _ => finish _
  | _ => exact fun _ _ _ _ _ _ permits => absurd rfl permits.1

/-- What begins like an expression is no reserved word but that of a constant. -/
theorem opensPhrase_ne {k : TokenKind} (opens : k.opensPhrase = true) (x : Keyword) (other : x.literal?.isNone = true) :
    k ≠ .keyword x := by
  rintro rfl
  cases x <;> cases other <;> cases opens

section

variable (first : Token) {word sign semicolon : Token}

theorem return_takes (opened : word.kind = .keyword .returnWord) (ended : semicolon.kind = .symbol .semicolon) :
    Takes L (simple first fuel) F [word, semicolon] [] fun _ => True := by
  refine (accept_found opened).token ?_
  rintro _ rfl
  refine Takes.skip (F := (· = .symbol .semicolon)) sees_found (fun _ _ => ended) ?_
  rintro _ rfl
  exact Takes.skip (F := Any) (P := (· = none)) (.pure rfl) (fun _ _ => trivial) fun _ _ =>
    (expectSymbol_found ended).token fun _ _ => .pure trivial

theorem returnValue_takes (opened : word.kind = .keyword .returnWord) (value : Phrase.expr.Derives ts f)
    (short : ts.length < fuel) (ended : semicolon.kind = .symbol .semicolon) :
    Takes L (simple first fuel) F (word :: (ts ++ [semicolon])) [] fun _ => True := by
  refine (accept_found opened).token ?_
  rintro _ rfl
  refine Takes.skip (F := (· ≠ .symbol .semicolon)) sees_other (fun rest _ same => ?_) ?_
  · have begins : Begins TokenKind.opensPhrase (ts ++ [semicolon]) := value.expr_begins.append
    have opens := begins.nextKind rest
    rw [same] at opens
    cases opens
  · rintro _ rfl
    refine ((expression_takes value short).map (f := some) (Q := fun _ => True) fun _ _ => trivial).plain
      (fun _ _ => stops_symbol ended (by decide)) fun _ _ => ?_
    exact (expectSymbol_found ended).token fun _ _ => .pure trivial

theorem eval_takes (value : Phrase.expr.Derives ts f) (short : ts.length < fuel)
    (ended : semicolon.kind = .symbol .semicolon) :
    Takes L (simple first fuel) F (ts ++ [semicolon]) [] fun _ => True := by
  refine Takes.skip (F := (· ≠ .keyword .returnWord)) accept_other (fun rest _ => ?_) ?_
  · have begins : Begins TokenKind.opensPhrase (ts ++ [semicolon]) := value.expr_begins.append
    exact opensPhrase_ne (begins.nextKind rest) _ rfl
  rintro _ rfl
  refine (expression_takes value short).plain (fun _ _ => stops_symbol ended (by decide)) fun _ _ => ?_
  refine Takes.skip (F := (· ≠ .symbol .assign)) accept_other (fun _ _ same => nomatch ended.symm.trans same) ?_
  rintro _ rfl
  exact (expectSymbol_found ended).token fun _ _ => .pure trivial

theorem assign_takes {g : Form} (target : Phrase.expr.Derives ts f) (signed : sign.kind = .symbol .assign)
    (value : Phrase.expr.Derives us g) (short : (ts ++ sign :: us).length < fuel)
    (ended : semicolon.kind = .symbol .semicolon) :
    Takes L (simple first fuel) F (ts ++ sign :: (us ++ [semicolon])) f.clauses fun _ => True := by
  rw [List.length_append, List.length_cons] at short
  refine Takes.skip (F := (· ≠ .keyword .returnWord)) accept_other (fun rest _ => ?_) ?_
  · have begins : Begins TokenKind.opensPhrase (ts ++ sign :: (us ++ [semicolon])) := target.expr_begins.append
    exact opensPhrase_ne (begins.nextKind rest) _ rfl
  rintro _ rfl
  refine (expression_takes target (by omega)).plain (fun _ _ => stops_symbol signed (by decide)) fun e good => ?_
  refine (accept_found signed).token ?_
  rintro _ rfl
  exact good ▸ assignment_takes first _ value (by omega) ended

end

theorem forLoop_takes (place : Position) {statement : Parser Stmt} (statements : TakesStmts L fuel statement)
    {opening name colon closing : Token} (before : opening.kind = .symbol .openParen) (named : name.kind = .ident)
    (sign : colon.kind = .symbol .colon) (items : Phrase.expr.Derives ts f) (after : closing.kind = .symbol .closeParen)
    (body : Sentence.Derives .block us cs) (short : (ts ++ us).length < fuel) :
    Takes L (forLoop place statement fuel) F (opening :: name :: colon :: (ts ++ closing :: us)) cs fun _ => True := by
  rw [List.length_append] at short
  refine (expectSymbol_found before).token fun _ _ => (expect_found named _).token fun _ _ =>
    (expectSymbol_found sign).token fun _ _ => ?_
  exact expression_ends items (by omega) (by decide) after fun _ _ =>
    (block_takes statements body (by omega)).last (fun _ next => next) fun _ _ => .pure trivial

theorem guarded_takes (line : Nat) {statement : Parser Stmt} (statements : TakesStmts L fuel statement)
    {vs : List Token} {handles : Token} (body : Sentence.Derives .block ts cs)
    (caught : handles.kind = .keyword .catchWord) (binding : HandlerName us) (handler : Sentence.Derives .block vs ds)
    (short : (ts ++ vs).length ≤ fuel) :
    Takes L (guarded line statement fuel) F (ts ++ handles :: (us ++ vs)) (cs ++ ds) fun _ => True := by
  rw [List.length_append] at short
  refine (block_takes (F := Any) statements body (by omega)).bind (fun _ _ => trivial) fun _ _ =>
    (expect_found caught _).token fun _ _ => ?_
  cases binding with
  | none =>
    refine Takes.skip (F := (· ≠ .symbol .colon)) accept_other (fun _ _ => ?_) ?_
    · cases handler with
      | block before => exact fun same => nomatch before.symm.trans same
    · rintro _ rfl
      exact (block_takes statements handler (by omega)).last (fun _ next => next) fun _ _ => .pure trivial
  | some sign named =>
    refine (accept_found sign).token ?_
    rintro _ rfl
    refine (expect_found named _).token fun _ _ => ?_
    exact (block_takes statements handler (by omega)).last (fun _ next => next) fun _ _ => .pure trivial

/-- A statement that begins like an expression has no word of its own. -/
theorem Takes.simple {P : Stmt → Prop} {t : Token} (opens : t.kind.opensPhrase = true)
    (takes : Takes L (simple t fuel) F (t :: ts) cs P) : Takes L (statement (fuel + 1)) F (t :: ts) cs P := by
  refine Takes.peek fun _ => ?_
  split
  iterate 6
    · next same =>
      rw [same] at opens
      cases opens
  exact takes

theorem Takes.simple_append {P : Stmt → Prop} (begins : Begins TokenKind.opensPhrase ts)
    (takes : ∀ t, Takes L (Parser.simple t fuel) F (ts ++ us) cs P) :
    Takes L (statement (fuel + 1)) F (ts ++ us) cs P := by
  obtain ⟨t, vs, rfl, opens⟩ := begins
  exact .simple opens (takes t)

theorem statement_takes (fuel : Nat) {L : Nat → Prop} {ts : List Token} {cs : List Clause}
    (derives : Sentence.Derives .statement ts cs) (short : ts.length < fuel) :
    Takes L (statement fuel) Ends ts cs fun _ => True := by
  induction fuel generalizing L ts cs with
  | zero => cases short
  | succ fuel ih =>
    have statements {L : Nat → Prop} : TakesStmts L fuel (statement fuel) := ih
    cases derives with
    | branch opened condition body others =>
      simp only [List.length_cons, List.length_append] at short
      refine Takes.peek fun _ => ?_
      rw [opened]
      refine advance_found.token fun _ _ => (condition_takes (F := Any) condition (by omega)).plain
        (fun _ _ => trivial) fun _ _ => (block_takes (F := Any) statements body (by omega)).bind
        (fun _ _ => trivial) fun _ _ => ?_
      refine (otherwise_takes (fun condition (short : _ ≤ fuel) => condition_takes condition short)
        (fun body short => block_takes statements body short) fuel others (by omega) (by omega)).last
        (fun _ next => next) fun _ _ => .pure trivial
    | whileLoop opened condition body =>
      simp only [List.length_cons, List.length_append] at short
      refine Takes.peek fun _ => ?_
      rw [opened]
      refine advance_found.token fun _ _ => (condition_takes (F := Any) condition (by omega)).plain
        (fun _ _ => trivial) fun _ _ => ?_
      exact (block_takes statements body (by omega)).last (fun _ next => next) fun _ _ => .pure trivial
    | forLoop opened before named sign items after body =>
      simp only [List.length_cons, List.length_append] at short
      refine Takes.peek fun _ => ?_
      rw [opened]
      refine advance_found.token fun _ _ => forLoop_takes _ statements before named sign items after body ?_
      rw [List.length_append]
      omega
    | guarded opened body caught binding handler =>
      simp only [List.length_cons, List.length_append] at short
      refine Takes.peek fun _ => ?_
      rw [opened]
      refine advance_found.token fun _ _ => guarded_takes _ statements body caught binding handler ?_
      rw [List.length_append]
      omega
    | define opened function =>
      rw [List.length_cons] at short
      refine Takes.peek fun _ => ?_
      rw [opened]
      refine advance_found.token fun _ _ => ?_
      exact (function_takes _ statements function (by omega)).last (fun _ next => next) fun _ _ => .pure trivial
    | ret opened ended =>
      refine Takes.peek fun _ => ?_
      rw [opened]
      exact return_takes _ opened ended
    | retValue opened value ended =>
      simp only [List.length_cons, List.length_append] at short
      refine Takes.peek fun _ => ?_
      rw [opened]
      exact returnValue_takes _ opened value (by omega) ended
    | eval value ended =>
      simp only [List.length_append, List.length_cons, List.length_nil] at short
      refine .simple_append value.expr_begins fun t => eval_takes t value ?_ ended
      omega
    | @assign us vs f g sign semicolon target signed value ended =>
      simp only [List.length_cons, List.length_append, List.length_nil] at short
      refine .simple_append target.expr_begins fun t => assign_takes t target signed value ?_ ended
      rw [List.length_append, List.length_cons]
      omega

theorem classMember_takes (derives : Sentence.Derives .member ts cs) (short : ts.length ≤ fuel) :
    Takes L (classMember fuel) F ts cs fun _ => True := by
  have statements {L : Nat → Prop} : TakesStmts L fuel (statement fuel) := fun derives => statement_takes fuel derives
  cases derives with
  | @field us f word name sign semicolon opened named signed value ended =>
    simp only [List.length_cons, List.length_append] at short
    refine Takes.notTwo (fun rest _ _ same => nomatch named.symm.trans same) ?_
    refine (accept_found (k := .keyword .staticWord) opened).token ?_
    rintro _ rfl
    refine (expect_found named _).token fun _ _ => (expectSymbol_found signed).token fun _ _ => ?_
    exact expression_ends value (by omega) (by decide) ended fun _ _ => .pure trivial
  | staticMethod stands opened function =>
    rw [List.length_cons, List.length_cons] at short
    refine (acceptTwo_found stands opened).tokens ?_
    rintro _ rfl
    exact ((function_takes _ statements function (by omega)).map fun _ _ => trivial)
  | method opened function =>
    rw [List.length_cons] at short
    refine Takes.notTwo (fun rest _ same => nomatch opened.symm.trans same) ?_
    refine Takes.skip (F := (· ≠ .keyword .staticWord)) accept_other (fun _ _ same => nomatch opened.symm.trans same) ?_
    rintro _ rfl
    refine (accept_found (k := .keyword .defWord) opened).token ?_
    rintro _ rfl
    exact (function_takes _ statements function (by omega)).map fun _ _ => trivial

theorem member_begins (derives : Sentence.Derives .member ts cs) :
    Begins (fun k => k = .keyword .staticWord ∨ k = .keyword .defWord) ts := by
  cases derives with
  | field opened | method opened | staticMethod opened => exact ⟨_, _, rfl, by simp [opened]⟩

theorem members_takes (many : Many (Sentence.Derives .member) ts cs) (short : ts.length < fuel) {t : Token}
    (closed : t.kind = .symbol .closeBrace) : Takes L (rounds (fun before => do
      if (← acceptSymbol .closeBrace).isSome then pure (.inr before.reverse)
      else
        let m ← classMember fuel
        pure (.inl (m :: before))) fuel []) F (ts ++ [t]) cs fun _ => True := by
  have each {us : List Token} {ds : List Clause} (one : Sentence.Derives .member us ds) (within : us.length < fuel)
      (before : List MemberTree) : Takes L (do
        if (← acceptSymbol .closeBrace).isSome then pure (.inr before.reverse)
        else
          let m ← classMember fuel
          pure (.inl (m :: before))) Any us ds fun r : List MemberTree ⊕ List MemberTree => ∃ z, r = .inl z := by
    refine Takes.skip (F := (· ≠ .symbol .closeBrace)) accept_other (fun rest _ same => ?_) ?_
    · have begins := (member_begins one).nextKind rest
      rw [same] at begins
      cases begins
    rintro _ rfl
    exact (classMember_takes one (Nat.le_of_lt within)).last (fun _ next => next) fun _ _ => .pure ⟨_, rfl⟩
  obtain ⟨k, count, turns⟩ := many_turns (L := L) many short (fun one => (member_begins one).length_pos)
    (fun _ _ => trivial) each
  rw [← List.append_nil cs]
  refine turns.ends (by omega) (fun _ _ => trivial) fun y _ => (accept_found closed).token ?_
  rintro _ rfl
  exact .pure ⟨_, rfl, trivial⟩

/-- Declarations can be read after clauses that declare nothing as well as before them. -/
theorem Takes.declared_first {p : Parser α} {c : Clause} (quiet : ∀ c ∈ cs, c.isLocal = true)
    (takes : Takes L p F ts (cs ++ [c]) P) : Takes L p F ts (c :: cs) P := by
  intro s rest whole level tokens next permits
  rw [ParserState.permitsAll_declared _ quiet] at permits
  have same : s.meetAll (c :: cs) = s.meetAll (cs ++ [c]) := by
    rw [ParserState.meetAll_declared _ quiet, ParserState.meetAll_append, ParserState.meetAll_local quiet]
    rfl
  rw [same]
  refine takes s rest whole level tokens next ?_
  rw [ParserState.permitsAll_append, ParserState.meetAll_local quiet]
  exact ⟨permits.1, permits.2, trivial⟩

theorem declareClass_takes {a : α} (h : P a) : Takes (· = 0) (do
    modify fun s => { s with classes := name :: s.classes }
    pure a) F [] [.declares name true] P := by
  rintro s rest _ outside tokens _ _
  have same : s.past rest = s := ParserState.past_self tokens
  have met : (s.meetAll [.declares name true]).past rest = { s.past rest with classes := name :: s.classes } := by
    simp [ParserState.meetAll, ParserState.meet, outside, ParserState.past]
  refine ⟨a, ?_, h⟩
  rw [met, same]
  rfl

theorem classDef_takes (line : Nat) {name opening closing : Token} (named : name.kind = .ident)
    (before : opening.kind = .symbol .openBrace) (members : Many (Sentence.Derives .member) ts cs)
    (after : closing.kind = .symbol .closeBrace) (short : ts.length < fuel) :
    Takes (· = 0) (classDef line fuel) F (name :: opening :: (ts ++ [closing])) (.declares name.text true :: cs)
      fun _ => True := by
  have quiet := members.isLocal fun _ _ member => member.member_isLocal
  rintro s rest whole outside tokens next permits
  have free : ¬(name.text ∈ s.topLevel ∨ name.text ∈ s.classes) := by
    rintro (there | there)
    · exact (permits.1 outside).2 rfl there
    · exact (permits.1 outside).1 there
  have found : expect .ident "class name" s = .ok (name, s.past (opening :: (ts ++ [closing]) ++ rest)) := by
    obtain ⟨_, read, rfl⟩ := expect_found (L := fun _ => True) (F := Any) named "class name" s _ whole trivial tokens
      trivial trivial
    exact read
  have split : s.cursor.tokens = [name] ++ (opening :: (ts ++ [closing]) ++ rest) := tokens
  have opened := whole.onward _ [] split
  have inner : Takes (· = 0) (do
      let _ ← expectSymbol .openBrace
      let members ← rounds (fun before => do
        if (← acceptSymbol .closeBrace).isSome then pure (.inr before.reverse)
        else
          let m ← classMember fuel
          pure (.inl (m :: before))) fuel []
      modify fun s => { s with classes := name.text :: s.classes }
      pure (ClassTree.mk line name.text members)) F (opening :: (ts ++ [closing])) (.declares name.text true :: cs)
      fun _ => True := by
    refine .declared_first quiet ((expectSymbol_found before).token fun _ _ => ?_)
    rw [← List.append_nil (ts ++ [closing])]
    exact (members_takes (F := Any) members short after).bind (fun _ _ => trivial) fun _ _ => declareClass_takes trivial
  obtain ⟨c, read, _⟩ := inner _ rest opened outside rfl next ((ParserState.permitsAll_past _).mpr permits)
  refine ⟨c, ?_, trivial⟩
  refine (bind_eq found).trans ?_
  change (if name.text ∈ s.topLevel ∨ name.text ∈ s.classes then _ else _ : Parser ClassTree) _ = _
  rw [if_neg free]
  refine read.trans ?_
  rw [ParserState.meetAll_past]
  rfl

theorem item_takes (derives : Sentence.Derives .item ts cs) (short : ts.length < fuel) :
    Takes (· = 0) (item fuel) Ends ts cs fun _ => True := by
  have statements {L : Nat → Prop} : TakesStmts L fuel (statement fuel) := fun derives => statement_takes fuel derives
  cases derives with
  | @function us name cs word opened rule =>
    rw [List.length_cons] at short
    refine (accept_found (k := .keyword .defWord) opened).token ?_
    rintro _ rfl
    refine .declared_first rule.isLocal ?_
    rw [← List.append_nil us]
    refine (function_takes (F := Any) _ statements rule (by omega)).bind (fun _ _ => trivial) ?_
    rintro f rfl
    exact (declare_takes _).last (fun _ next => next) fun _ _ => .pure trivial
  | classDef opened named before members after =>
    simp only [List.length_cons, List.length_append] at short
    refine Takes.skip (F := (· ≠ .keyword .defWord)) accept_other (fun _ _ same => nomatch opened.symm.trans same) ?_
    rintro _ rfl
    refine (accept_found (k := .keyword .classWord) opened).token ?_
    rintro _ rfl
    exact (classDef_takes _ named before members after (by omega)).map fun _ _ => trivial
  | plain statement other =>
    obtain ⟨t, us, rfl, opens⟩ := statement.statement_begins
    refine Takes.skip (F := (· ≠ .keyword .defWord)) accept_other (fun _ _ => other t rfl) ?_
    rintro _ rfl
    refine Takes.skip (F := (· ≠ .keyword .classWord)) accept_other (fun rest _ same => ?_) ?_
    · have kind : t.kind = .keyword .classWord := same
      rw [kind] at opens
      cases opens
    · rintro _ rfl
      exact (statement_takes fuel statement short).map fun _ _ => trivial

/-- What an item begins with goes on with no statement before it. -/
theorem item_begins (derives : Sentence.Derives .item ts cs) :
    Begins (fun k => k = .keyword .defWord ∨ k = .keyword .classWord ∨ k.opensStatement) ts := by
  cases derives with
  | function opened | classDef opened => exact ⟨_, _, rfl, by simp [opened]⟩
  | plain statement => exact statement.statement_begins.mono fun _ opens => by simp [opens]

theorem module_takes (many : IsModule ts cs) (short : ts.length < fuel) :
    Takes (· = 0) (module fuel) (· = .endOfInput) ts cs fun _ => True := by
  have each {us : List Token} {ds : List Clause} (one : Sentence.Derives .item us ds) (within : us.length < fuel)
      (before : List Item) : Takes (· = 0) (do
        if ← sees .endOfInput then pure (.inr before.reverse)
        else
          let i ← item fuel
          pure (.inl (i :: before))) Ends us ds fun r : List Item ⊕ List Item => ∃ z, r = .inl z := by
    refine Takes.skip (F := (· ≠ .endOfInput)) sees_other (fun rest _ same => ?_) ?_
    · have begins := (item_begins one).nextKind rest
      rw [same] at begins
      cases begins
    rintro _ rfl
    exact (item_takes one within).last (fun _ next => next) fun _ _ => .pure ⟨_, rfl⟩
  have joins {us : List Token} {ds : List Clause} (one : Sentence.Derives .item us ds) (rest : List Token) :
      Ends (nextKind (us ++ rest)) := by
    have begins := (item_begins one).nextKind rest
    constructor <;>
    · intro same
      rw [same] at begins
      cases begins
  obtain ⟨k, count, turns⟩ := many_turns many short (fun one => (item_begins one).length_pos) joins each
  refine Takes.last (F := (· = .endOfInput)) (P := fun _ => True) (turns.stops (by omega) ?_ fun y _ => ?_)
    (fun _ next => next) fun items _ => ?_
  · rintro _ rfl
    exact ⟨nofun, nofun⟩
  · refine Takes.last sees_found (fun _ next => next) ?_
    rintro _ rfl
    exact .pure ⟨_, rfl, trivial⟩
  · intro s rest whole _ tokens _ _
    have same : s.past rest = s := ParserState.past_self tokens
    refine ⟨⟨items, s.next.position⟩, (bind_eq (peek_eq whole)).trans ?_, trivial⟩
    change _ = Except.ok (_, s.past rest)
    rw [same]
    rfl

end

end Parser

end ScriptEngine
