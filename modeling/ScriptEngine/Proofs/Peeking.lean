import ScriptEngine.Proofs.ParserStates
import ScriptEngine.Proofs.Parsing
import ScriptEngine.Proofs.Steps
import ScriptEngine.Token.Lookahead

/-! # Lookahead loses nothing

A cursor that reads on demand hands out the tokens of its text one after the other, whatever calls are made of it and
however far they look: it has handed out some first tokens, and what it holds back are the next ones. So each call
answers as if all tokens lay before it, with end tokens after the last one; and so does the parser, which does have all
of them before it. Only where the text has a fault does a call that looks that far come upon the fault instead.
-/

namespace ScriptEngine

namespace TokenStream

variable {stream : TokenStream} {m n : Nat}

/-- A token by its number. After the last one come end tokens, at the place just past it. -/
def tokenAt (stream : TokenStream) (n : Nat) : Token := stream.tokens.getD n stream.endToken

/-- Whether so many tokens come before any fault. A text without one provides end tokens for ever. -/
def Provides (stream : TokenStream) (n : Nat) : Prop := n ≤ stream.tokens.length ∨ stream.failure = none

instance : Decidable (stream.Provides n) := inferInstanceAs (Decidable (_ ∨ _))

/-- The tokens with some end tokens after them, which come only if there is no fault. -/
def padded (stream : TokenStream) (count : Nat) : List Token :=
  stream.tokens ++ if stream.failure = none then List.replicate count stream.endToken else []

theorem tokenAt_of_lt (inside : n < stream.tokens.length) : stream.tokenAt n = stream.tokens[n] :=
  (List.getElem_eq_getD _).symm

theorem tokenAt_of_le (past : stream.tokens.length ≤ n) : stream.tokenAt n = stream.endToken := by
  rw [tokenAt, List.getD_eq_getElem?_getD, List.getElem?_eq_none past]
  rfl

theorem Provides.mono (provides : stream.Provides n) (fewer : m ≤ n) : stream.Provides m :=
  provides.imp_left (Nat.le_trans fewer)

/-- Where there is no token and no fault, the text has none at all. -/
theorem Provides.ended (provides : stream.Provides (n + 1)) (past : stream.tokens.length ≤ n) :
    stream.failure = none :=
  provides.resolve_left (Nat.not_le_of_lt (Nat.lt_succ_of_le past))

/-- The first token that is not provided is the one after the last, and there stands a fault. -/
theorem fault_of_not_provides (short : ¬ stream.Provides (n + 1)) (before : stream.Provides n) :
    n = stream.tokens.length ∧ ∃ fault, stream.failure = some fault := by
  obtain ⟨beyond, failed⟩ := not_or.mp short
  obtain inside := before.resolve_right failed
  exact ⟨by omega, Option.ne_none_iff_exists'.mp failed⟩

/-- Numbered tokens from the first on are a prefix of all. -/
theorem tokenAt_prefix (provides : stream.Provides n) :
    (List.range' 0 n).map stream.tokenAt <+: stream.padded n := by
  rw [List.prefix_iff_eq_take]
  apply List.ext_getElem?
  intro k
  rw [List.length_map, List.length_range', List.getElem?_take, List.getElem?_map]
  by_cases inside : k < n
  · rw [if_pos inside, List.getElem?_range' inside, padded, Nat.zero_add, Nat.one_mul]
    change some (stream.tokenAt k) = _
    by_cases known : k < stream.tokens.length
    · rw [List.getElem?_append_left known, tokenAt_of_lt known, List.getElem?_eq_getElem known]
    · have past := Nat.le_of_not_lt known
      rw [if_pos ((provides.mono inside).ended past), List.getElem?_append_right past, tokenAt_of_le past,
        List.getElem?_replicate, if_pos (by omega)]
  · rw [if_neg inside, List.getElem?_eq_none (by simpa using inside)]
    rfl

end TokenStream

/-- Whether a cause is one that reading a token can come upon. -/
def SyntaxError.isLexical : SyntaxError → Bool
  | .unterminatedString | .unterminatedComment | .unexpectedCharacter _ | .malformedNumber _ => true
  | _ => false

theorem SyntaxError.Begins.isLexical {cause : SyntaxError} {text : List Char} (begins : cause.Begins text) :
    cause.isLexical = true := by
  cases cause with
  | unterminatedString | unterminatedComment | unexpectedCharacter | malformedNumber => rfl
  | _ => exact begins.elim

namespace Lexer

theorem next_lexical {s : State} {fault : Fault} (failed : next s = .error fault) : fault.cause.isLexical = true := by
  rcases next_error failed with skipped | ⟨p, c, cs, -, read⟩
  · rcases skip_error skipped with ⟨_, _, _, rfl⟩ | ⟨_, _, _, _, _, rfl⟩ <;> rfl
  · exact (token_error read).2.isLexical

namespace Reader

theorem asked_succ (r : Reader) (n : Nat) : r.asked (n + 1) = (r.asked n).pull.2 := by
  induction n generalizing r with
  | zero => rfl
  | succ n ih => exact ih r.pull.2

/-- A reader of a text hands out its tokens, then the fault if there is one. -/
def Reads (r : Reader) (stream : TokenStream) : Prop :=
  ∀ n, (r.asked n).pull.1 =
    (stream.tokens.map .ok ++ stream.failure.toList.map .error : List (Except Fault Token))[n]?

theorem ofSource_reads (source : String) : (ofSource source).Reads (.ofSource source) :=
  asked_pull _ (Nat.lt_succ_self _)

variable {r : Reader} {stream : TokenStream} {n : Nat}

theorem Reads.token (reads : r.Reads stream) (inside : n < stream.tokens.length) :
    (r.asked n).pull = (some (.ok (stream.tokenAt n)), r.asked (n + 1)) := by
  refine Prod.ext ?_ (asked_succ r n).symm
  rw [reads n, List.getElem?_append_left (by simpa using inside), List.getElem?_map,
    List.getElem?_eq_getElem inside, TokenStream.tokenAt_of_lt inside]
  rfl

theorem Reads.ending (reads : r.Reads stream) (past : stream.tokens.length ≤ n) (whole : stream.failure = none) :
    (r.asked n).pull = (none, r.asked (n + 1)) := by
  refine Prod.ext ?_ (asked_succ r n).symm
  rw [reads n, whole]
  simpa using past

theorem Reads.fault (reads : r.Reads stream) {fault : Fault} (failed : stream.failure = some fault) :
    (r.asked stream.tokens.length).pull = (some (.error fault), r.asked (stream.tokens.length + 1)) := by
  refine Prod.ext ?_ (asked_succ r _).symm
  rw [reads, failed]
  simp

end Reader

end Lexer

/-- The fault of a text is one that reading a token came upon. -/
theorem TokenStream.ofSource_lexical {source : String} {fault : Fault}
    (failed : (TokenStream.ofSource source).failure = some fault) : fault.cause.isLexical = true := by
  obtain ⟨s, read⟩ := TokenStream.ofSource_failed failed
  exact Lexer.next_lexical read

section

variable {ε σ α β : Type} {x : EStateM ε σ α} {f : α → β} {s s' : σ}

theorem map_ok {a : α} (h : x s = .ok a s') : (f <$> x) s = .ok (f a) s' := by
  change EStateM.map f x s = _
  simp only [EStateM.map, h]

theorem map_error {e : ε} (h : x s = .error e s') : (f <$> x) s = .error e s' := by
  change EStateM.map f x s = _
  simp only [EStateM.map, h]

end

namespace Lookahead

variable {r : Lexer.Reader} {stream : TokenStream} {m b k : Nat} {c : Lookahead} {α β : Type}

/-- The cursor has handed out `m` tokens of a text and holds back the `b` next ones. -/
structure Holds (r : Lexer.Reader) (stream : TokenStream) (m b : Nat) (c : Lookahead) : Prop where
  reader : c.reader = r.asked (m + b)
  buffered : c.buffered = (List.range' m b).map stream.tokenAt
  stop : c.stop = Cursor.stopOf (stream.tokens.take (m + b))
  provided : stream.Provides (m + b)

/-- The cursor has handed out `m` tokens of a text, and at least `k` more are at hand. -/
def Ready (r : Lexer.Reader) (stream : TokenStream) (m k : Nat) (c : Lookahead) : Prop :=
  ∃ b, k ≤ b ∧ c.Holds r stream m b

theorem Ready.fewer (ready : Ready r stream m k c) : Ready r stream m 0 c := by
  obtain ⟨b, -, holds⟩ := ready
  exact ⟨b, Nat.zero_le b, holds⟩

/-- A call that comes upon the fault of the text. -/
def Fails (stream : TokenStream) (x : LookaheadM α) (c : Lookahead) : Prop :=
  ∃ fault c', x c = .error fault c' ∧ stream.failure = some fault

theorem Fails.bind {x : LookaheadM α} {f : α → LookaheadM β} (fails : Fails stream x c) :
    Fails stream (x >>= f) c := by
  obtain ⟨fault, c', ran, failed⟩ := fails
  exact ⟨fault, c', bind_error ran, failed⟩

theorem Fails.map {x : LookaheadM α} {f : α → β} (fails : Fails stream x c) : Fails stream (f <$> x) c := by
  obtain ⟨fault, c', ran, failed⟩ := fails
  exact ⟨fault, c', map_error ran, failed⟩

theorem Fails.after {x : LookaheadM α} {f : α → LookaheadM β} {a : α} {c' : Lookahead} (ran : x c = .ok a c')
    (fails : Fails stream (f a) c') : Fails stream (x >>= f) c := by
  obtain ⟨fault, c'', failed⟩ := fails
  exact ⟨fault, c'', (bind_ok ran).trans failed.1, failed.2⟩

/-- Past the last token the place to stop at is that of the end token. -/
theorem Holds.endToken_eq (holds : c.Holds r stream m b) (past : stream.tokens.length ≤ m + b) :
    c.endToken = stream.endToken := by
  rw [Lookahead.endToken, holds.stop, List.take_of_length_le past]
  rfl

theorem range'_tokenAt (m b : Nat) : (List.range' m (b + 1)).map stream.tokenAt =
    (List.range' m b).map stream.tokenAt ++ [stream.tokenAt (m + b)] := by
  rw [List.range'_concat, List.map_append, Nat.one_mul]
  rfl

theorem Holds.read (reads : r.Reads stream) (holds : c.Holds r stream m b) (provides : stream.Provides (m + b + 1)) :
    ∃ c', read c = .ok () c' ∧ c'.Holds r stream m (b + 1) := by
  by_cases inside : m + b < stream.tokens.length
  · have pulled := reads.token inside
    rw [← holds.reader] at pulled
    refine ⟨_, by rw [Lookahead.read, pulled], rfl, ?_, ?_, provides⟩
    · rw [range'_tokenAt, holds.buffered]
    · change (stream.tokenAt (m + b)).stop = Cursor.stopOf (stream.tokens.take (m + b + 1))
      rw [TokenStream.tokenAt_of_lt inside, List.take_succ_eq_append_getElem inside, Cursor.stopOf,
        List.getLast?_concat]
  · have past := Nat.le_of_not_lt inside
    have pulled := reads.ending past (provides.ended past)
    rw [← holds.reader] at pulled
    refine ⟨_, by rw [Lookahead.read, pulled], rfl, ?_, ?_, provides⟩
    · change c.buffered ++ [c.endToken] = _
      rw [range'_tokenAt, holds.buffered, TokenStream.tokenAt_of_le past, holds.endToken_eq past]
    · change c.stop = Cursor.stopOf (stream.tokens.take (m + b + 1))
      rw [holds.stop, List.take_of_length_le past, List.take_of_length_le (Nat.le_succ_of_le past)]

theorem Holds.read_fails (reads : r.Reads stream) (holds : c.Holds r stream m b)
    (short : ¬ stream.Provides (m + b + 1)) : Fails stream Lookahead.read c := by
  obtain ⟨here, fault, failed⟩ := TokenStream.fault_of_not_provides short holds.provided
  have pulled := reads.fault failed
  rw [← here, ← holds.reader] at pulled
  exact ⟨fault, _, by rw [Lookahead.read, pulled], failed⟩

theorem Holds.readMany (reads : r.Reads stream) (n : Nat) (holds : c.Holds r stream m b)
    (provides : stream.Provides (m + b + n)) : ∃ c', readMany n c = .ok () c' ∧ c'.Holds r stream m (b + n) := by
  induction n generalizing b c with
  | zero => exact ⟨c, rfl, holds⟩
  | succ n ih =>
    obtain ⟨c₁, first, holds₁⟩ := holds.read reads (provides.mono (by omega))
    obtain ⟨c₂, rest, holds₂⟩ := ih holds₁ (provides.mono (by omega))
    refine ⟨c₂, (bind_ok first).trans rest, ?_⟩
    rw [Nat.add_comm n 1, ← Nat.add_assoc]
    exact holds₂

theorem Holds.readMany_fails (reads : r.Reads stream) (n : Nat) (holds : c.Holds r stream m b)
    (short : ¬ stream.Provides (m + b + n)) : Fails stream (Lookahead.readMany n) c := by
  induction n generalizing b c with
  | zero => exact absurd holds.provided short
  | succ n ih =>
    by_cases more : stream.Provides (m + b + 1)
    · obtain ⟨c₁, first, holds₁⟩ := holds.read reads more
      refine Fails.after first (ih holds₁ ?_)
      rw [← Nat.add_assoc, Nat.add_right_comm (m + b)]
      exact short
    · exact (holds.read_fails reads more).bind

theorem Holds.length (holds : c.Holds r stream m b) : c.buffered.length = b := by
  rw [holds.buffered, List.length_map, List.length_range']

theorem Ready.fill {j : Nat} (reads : r.Reads stream) (ready : Ready r stream m j c)
    (provides : stream.Provides (m + k)) :
    ∃ c', fill k c = .ok () c' ∧ Ready r stream m k c' := by
  obtain ⟨b, -, holds⟩ := ready
  have filled : Lookahead.fill k c = Lookahead.readMany (k - b) c := by
    rw [← holds.length]
    rfl
  have enough : stream.Provides (m + b + (k - b)) := by
    by_cases more : k ≤ b
    · rw [Nat.sub_eq_zero_of_le more]
      exact holds.provided
    · exact provides.mono (by omega)
  obtain ⟨c', ran, holds'⟩ := holds.readMany reads (k - b) enough
  exact ⟨c', filled.trans ran, b + (k - b), by omega, holds'⟩

theorem Ready.fill_fails {j : Nat} (reads : r.Reads stream) (ready : Ready r stream m j c)
    (short : ¬ stream.Provides (m + k)) : Fails stream (Lookahead.fill k) c := by
  obtain ⟨b, -, holds⟩ := ready
  have filled : Lookahead.fill k c = Lookahead.readMany (k - b) c := by
    rw [← holds.length]
    rfl
  have fewer : b < k := Nat.lt_of_not_le fun more => short (holds.provided.mono (by omega))
  have missing := holds.readMany_fails reads (k - b) (by rwa [Nat.add_assoc, Nat.add_sub_cancel' (Nat.le_of_lt fewer)])
  unfold Fails at missing ⊢
  rwa [filled]

/-- The tokens at hand are the next ones. -/
theorem Ready.getD (ready : Ready r stream m k c) {i : Nat} (inside : i < k) :
    c.buffered.getD i c.endToken = stream.tokenAt (m + i) := by
  obtain ⟨b, enough, holds⟩ := ready
  rw [List.getD_eq_getElem?_getD, holds.buffered, List.getElem?_map,
    List.getElem?_range' (Nat.lt_of_lt_of_le inside enough), Nat.one_mul]
  rfl

variable {j : Nat} {kind first second : TokenKind} {what : String}

theorem Ready.peek (reads : r.Reads stream) (ready : Ready r stream m j c) (provides : stream.Provides (m + 1)) :
    ∃ c', peek c = .ok (stream.tokenAt m) c' ∧ Ready r stream m 1 c' := by
  obtain ⟨c', filled, ready'⟩ := ready.fill reads provides
  refine ⟨c', (bind_ok filled).trans ?_, ready'⟩
  change EStateM.Result.ok (c'.buffered.getD 0 c'.endToken) c' = _
  rw [ready'.getD Nat.one_pos, Nat.add_zero]

theorem Ready.peekSecond (reads : r.Reads stream) (ready : Ready r stream m j c)
    (provides : stream.Provides (m + 2)) :
    ∃ c', peekSecond c = .ok (stream.tokenAt (m + 1)) c' ∧ Ready r stream m 2 c' := by
  obtain ⟨c', filled, ready'⟩ := ready.fill reads provides
  refine ⟨c', (bind_ok filled).trans ?_, ready'⟩
  change EStateM.Result.ok (c'.buffered.getD 1 c'.endToken) c' = _
  rw [ready'.getD Nat.one_lt_two]

theorem Ready.sees (reads : r.Reads stream) (ready : Ready r stream m j c) (provides : stream.Provides (m + 1))
    (kind : TokenKind) :
    ∃ c', sees kind c = .ok (decide ((stream.tokenAt m).kind = kind)) c' ∧ Ready r stream m 1 c' := by
  obtain ⟨c', peeked, ready'⟩ := ready.peek reads provides
  exact ⟨c', bind_ok peeked, ready'⟩

theorem Ready.advance (reads : r.Reads stream) (ready : Ready r stream m j c) (provides : stream.Provides (m + 1)) :
    ∃ c', advance c = .ok (stream.tokenAt m) c' ∧ Ready r stream (m + 1) 0 c' := by
  obtain ⟨c₁, filled, b, some, holds⟩ := ready.fill reads provides
  obtain ⟨n, rfl⟩ := Nat.exists_eq_add_of_le' some
  have split : c₁.buffered = stream.tokenAt m :: (List.range' (m + 1) n).map stream.tokenAt := holds.buffered
  have same : m + 1 + n = m + (n + 1) := by omega
  refine ⟨{ c₁ with buffered := (List.range' (m + 1) n).map stream.tokenAt }, (bind_ok filled).trans ?_, n,
    Nat.zero_le n, ?_⟩
  · refine (bind_ok rfl).trans ?_
    rw [split]
    rfl
  · exact ⟨same ▸ holds.reader, rfl, same ▸ holds.stop, same ▸ holds.provided⟩

theorem Ready.accept (reads : r.Reads stream) (ready : Ready r stream m j c) (provides : stream.Provides (m + 1))
    (kind : TokenKind) :
    ∃ c', if (stream.tokenAt m).kind = kind
      then accept kind c = .ok (some (stream.tokenAt m)) c' ∧ Ready r stream (m + 1) 0 c'
      else accept kind c = .ok none c' ∧ Ready r stream m 1 c' := by
  obtain ⟨c₁, seen, ready₁⟩ := ready.sees reads provides kind
  by_cases here : (stream.tokenAt m).kind = kind
  · obtain ⟨c₂, advanced, ready₂⟩ := ready₁.advance reads provides
    refine ⟨c₂, ?_⟩
    rw [if_pos here]
    refine ⟨(bind_ok seen).trans ?_, ready₂⟩
    rw [if_pos (decide_eq_true here)]
    exact bind_ok advanced
  · refine ⟨c₁, ?_⟩
    rw [if_neg here]
    refine ⟨(bind_ok seen).trans ?_, ready₁⟩
    rw [if_neg (by simpa using here)]
    rfl

theorem Ready.acceptTwo (reads : r.Reads stream) (ready : Ready r stream m j c) (provides : stream.Provides (m + 2))
    (first second : TokenKind) :
    ∃ c', if (stream.tokenAt m).kind = first ∧ (stream.tokenAt (m + 1)).kind = second
      then acceptTwo first second c = .ok (some (stream.tokenAt m, stream.tokenAt (m + 1))) c' ∧
        Ready r stream (m + 2) 0 c'
      else acceptTwo first second c = .ok none c' ∧ Ready r stream m 2 c' := by
  obtain ⟨c₁, filled, ready₁⟩ := ready.fill reads provides
  have looked : Lookahead.acceptTwo first second c =
      (if (stream.tokenAt m).kind = first ∧ (stream.tokenAt (m + 1)).kind = second then do
        let a ← Lookahead.advance
        let b ← Lookahead.advance
        Pure.pure (some (a, b))
      else Pure.pure none : LookaheadM (Option (Token × Token))) c₁ := by
    refine (bind_ok filled).trans ((bind_ok rfl).trans ?_)
    rw [ready₁.getD Nat.two_pos, ready₁.getD Nat.one_lt_two, Nat.add_zero]
  by_cases both : (stream.tokenAt m).kind = first ∧ (stream.tokenAt (m + 1)).kind = second
  · obtain ⟨c₂, advanced, ready₂⟩ := ready₁.advance reads (provides.mono (by omega))
    obtain ⟨c₃, again, ready₃⟩ := ready₂.advance reads provides
    refine ⟨c₃, ?_⟩
    rw [if_pos both]
    refine ⟨looked.trans ?_, ready₃⟩
    rw [if_pos both]
    exact (bind_ok advanced).trans (bind_ok again)
  · refine ⟨c₁, ?_⟩
    rw [if_neg both]
    refine ⟨looked.trans ?_, ready₁⟩
    rw [if_neg both]
    rfl

theorem Ready.unexpected (reads : r.Reads stream) (ready : Ready r stream m j c) (provides : stream.Provides (m + 1))
    (what : String) :
    ∃ c', unexpected what c =
      .ok ⟨(stream.tokenAt m).position, .unexpectedToken what (stream.tokenAt m).describe⟩ c' ∧
      Ready r stream m 1 c' := by
  obtain ⟨c', peeked, ready'⟩ := ready.peek reads provides
  exact ⟨c', bind_ok peeked, ready'⟩

theorem Ready.expect (reads : r.Reads stream) (ready : Ready r stream m j c) (provides : stream.Provides (m + 1))
    (kind : TokenKind) (what : String) :
    ∃ c', if (stream.tokenAt m).kind = kind
      then expect kind what c = .ok (stream.tokenAt m) c' ∧ Ready r stream (m + 1) 0 c'
      else expect kind what c =
        .error ⟨(stream.tokenAt m).position, .unexpectedToken what (stream.tokenAt m).describe⟩ c' ∧
          Ready r stream m 1 c' := by
  obtain ⟨c₁, accepted⟩ := ready.accept reads provides kind
  by_cases here : (stream.tokenAt m).kind = kind
  · rw [if_pos here] at accepted
    refine ⟨c₁, ?_⟩
    rw [if_pos here]
    exact ⟨bind_ok accepted.1, accepted.2⟩
  · rw [if_neg here] at accepted
    obtain ⟨c₂, reported, ready₂⟩ := accepted.2.unexpected reads provides what
    refine ⟨c₂, ?_⟩
    rw [if_neg here]
    exact ⟨(bind_ok accepted.1).trans (bind_ok reported), ready₂⟩

end Lookahead

/-- The calls of a cursor. -/
inductive CursorCall where
  | peek
  | peekSecond
  | sees (kind : TokenKind)
  | atEnd
  | advance
  | accept (kind : TokenKind)
  | acceptTwo (first second : TokenKind)
  | expect (kind : TokenKind) (what : String)
  | unexpected (what : String)

/-- What a call answers: a token that it shows, whether a token is of a kind, the tokens that it hands out, or a fault
that it words. -/
inductive CursorAnswer where
  | shown (t : Token)
  | isKind (b : Bool)
  | handed (ts : List Token)
  | worded (fault : Fault)

/-- The tokens that an answer hands out. -/
def CursorAnswer.tokens : CursorAnswer → List Token
  | .handed ts => ts
  | _ => []

namespace CursorCall

/-- How many of the next tokens a call looks at. -/
def looks : CursorCall → Nat
  | .peekSecond | .acceptTwo .. => 2
  | _ => 1

theorem looks_pos (call : CursorCall) : 1 ≤ call.looks := by
  unfold looks
  split <;> decide

/-- What a call answers where the next two tokens are known. -/
def answer (next second : Token) : CursorCall → Except Fault CursorAnswer
  | .peek => .ok (.shown next)
  | .peekSecond => .ok (.shown second)
  | .sees kind => .ok (.isKind (next.kind = kind))
  | .atEnd => .ok (.isKind (next.kind = .endOfInput))
  | .advance => .ok (.handed [next])
  | .accept kind => .ok (.handed (if next.kind = kind then [next] else []))
  | .acceptTwo j k => .ok (.handed (if next.kind = j ∧ second.kind = k then [next, second] else []))
  | .expect kind what =>
    if next.kind = kind then .ok (.handed [next])
    else .error ⟨next.position, .unexpectedToken what next.describe⟩
  | .unexpected what => .ok (.worded ⟨next.position, .unexpectedToken what next.describe⟩)

/-- What a call answers that comes after the first `m` tokens of a text: an answer by the next ones, or the fault of
the text if there are fewer than it looks at. -/
def reply (stream : TokenStream) (m : Nat) (call : CursorCall) : Except Fault CursorAnswer :=
  match stream.failure with
  | none => call.answer (stream.tokenAt m) (stream.tokenAt (m + 1))
  | some fault =>
    if m + call.looks ≤ stream.tokens.length then call.answer (stream.tokenAt m) (stream.tokenAt (m + 1))
    else .error fault

/-- Makes a call of a cursor that reads on demand. -/
def perform : CursorCall → LookaheadM CursorAnswer
  | .peek => .shown <$> Lookahead.peek
  | .peekSecond => .shown <$> Lookahead.peekSecond
  | .sees kind => .isKind <$> Lookahead.sees kind
  | .atEnd => .isKind <$> Lookahead.atEnd
  | .advance => (.handed [·]) <$> Lookahead.advance
  | .accept kind => (fun t => .handed t.toList) <$> Lookahead.accept kind
  | .acceptTwo j k => (fun ts => .handed (ts.elim [] fun (a, b) => [a, b])) <$> Lookahead.acceptTwo j k
  | .expect kind what => (.handed [·]) <$> Lookahead.expect kind what
  | .unexpected what => .worded <$> Lookahead.unexpected what

variable {r : Lexer.Reader} {stream : TokenStream} {m j : Nat} {c : Lookahead}

theorem reply_of_provides {call : CursorCall} (provides : stream.Provides (m + call.looks)) :
    call.reply stream m = call.answer (stream.tokenAt m) (stream.tokenAt (m + 1)) := by
  unfold reply
  cases failed : stream.failure with
  | none => rfl
  | some fault => exact if_pos (provides.resolve_right (by simp [failed]))

theorem reply_of_short {call : CursorCall} (short : ¬ stream.Provides (m + call.looks)) {fault : Fault}
    (failed : stream.failure = some fault) : call.reply stream m = .error fault := by
  unfold reply
  rw [failed]
  exact if_neg fun enough => short (.inl enough)

/-- Where a text provides the tokens that a call looks at, the call answers as it should, and what it hands out are the
next tokens. -/
theorem perform_answers (reads : r.Reads stream) (ready : c.Ready r stream m j) (call : CursorCall)
    (provides : stream.Provides (m + call.looks)) :
    ∃ c', match call.answer (stream.tokenAt m) (stream.tokenAt (m + 1)) with
      | .ok answer => call.perform c = .ok answer c' ∧ c'.Ready r stream (m + answer.tokens.length) 0
      | .error fault => call.perform c = .error fault c' ∧ c'.Ready r stream m 0 := by
  cases call with
  | peek =>
    obtain ⟨c', ran, ready'⟩ := ready.peek reads provides
    exact ⟨c', map_ok ran, ready'.fewer⟩
  | peekSecond =>
    obtain ⟨c', ran, ready'⟩ := ready.peekSecond reads provides
    exact ⟨c', map_ok ran, ready'.fewer⟩
  | sees kind =>
    obtain ⟨c', ran, ready'⟩ := ready.sees reads provides kind
    exact ⟨c', map_ok ran, ready'.fewer⟩
  | atEnd =>
    obtain ⟨c', ran, ready'⟩ := ready.sees reads provides .endOfInput
    exact ⟨c', map_ok ran, ready'.fewer⟩
  | advance =>
    obtain ⟨c', ran, ready'⟩ := ready.advance reads provides
    exact ⟨c', map_ok ran, ready'⟩
  | accept kind =>
    obtain ⟨c', accepted⟩ := ready.accept reads provides kind
    refine ⟨c', ?_⟩
    dsimp only [answer]
    split at accepted
    · next here =>
      rw [if_pos here]
      exact ⟨map_ok accepted.1, accepted.2⟩
    · next other =>
      rw [if_neg other]
      exact ⟨map_ok accepted.1, accepted.2.fewer⟩
  | acceptTwo first second =>
    obtain ⟨c', accepted⟩ := ready.acceptTwo reads provides first second
    refine ⟨c', ?_⟩
    dsimp only [answer]
    split at accepted
    · next here =>
      rw [if_pos here]
      exact ⟨map_ok accepted.1, accepted.2⟩
    · next other =>
      rw [if_neg other]
      exact ⟨map_ok accepted.1, accepted.2.fewer⟩
  | expect kind what =>
    obtain ⟨c', expected⟩ := ready.expect reads provides kind what
    refine ⟨c', ?_⟩
    dsimp only [answer]
    split at expected
    · next here =>
      rw [if_pos here]
      exact ⟨map_ok expected.1, expected.2⟩
    · next other =>
      rw [if_neg other]
      exact ⟨map_error expected.1, expected.2.fewer⟩
  | unexpected what =>
    obtain ⟨c', ran, ready'⟩ := ready.unexpected reads provides what
    exact ⟨c', map_ok ran, ready'.fewer⟩

/-- Where a text does not provide them, the call comes upon its fault. -/
theorem perform_fails (reads : r.Reads stream) (ready : c.Ready r stream m j) (call : CursorCall)
    (short : ¬ stream.Provides (m + call.looks)) : Lookahead.Fails stream call.perform c := by
  cases call with
  | peek => exact (ready.fill_fails reads short).bind.map
  | peekSecond => exact (ready.fill_fails reads short).bind.map
  | sees kind => exact (ready.fill_fails reads short).bind.bind.map
  | atEnd => exact (ready.fill_fails reads short).bind.bind.map
  | advance => exact (ready.fill_fails reads short).bind.map
  | accept kind => exact (ready.fill_fails reads short).bind.bind.bind.map
  | acceptTwo first second => exact (ready.fill_fails reads short).bind.map
  | expect kind what => exact (ready.fill_fails reads short).bind.bind.bind.bind.map
  | unexpected what => exact (ready.fill_fails reads short).bind.bind.map

/-- What a call hands out are the next tokens. -/
theorem answer_tokens {call : CursorCall} {answer : CursorAnswer}
    (answered : call.answer (stream.tokenAt m) (stream.tokenAt (m + 1)) = .ok answer) :
    answer.tokens = (List.range' m answer.tokens.length).map stream.tokenAt := by
  cases call with
  | accept kind =>
    cases answered
    dsimp only [CursorAnswer.tokens]
    split <;> rfl
  | acceptTwo first second =>
    cases answered
    dsimp only [CursorAnswer.tokens]
    split <;> rfl
  | expect kind what =>
    dsimp only [CursorCall.answer] at answered
    split at answered
    · cases answered
      rfl
    · cases answered
  | _ =>
    cases answered
    rfl

/-- A call that answers with a fault of its own answers with none of the lexer. -/
theorem answer_error {call : CursorCall} {next second : Token} {fault : Fault}
    (answered : call.answer next second = .error fault) : fault.cause.isLexical = false := by
  cases call with
  | expect kind what =>
    dsimp only [CursorCall.answer] at answered
    split at answered
    · cases answered
    · cases answered
      rfl
  | _ => cases answered

end CursorCall

namespace ParserState

/-- The state with the cursor after the first `m` tokens of a text. -/
def after (s : ParserState) (stream : TokenStream) (m : Nat) : ParserState :=
  { s with cursor := ⟨stream.tokens.drop m, stream.failure, Cursor.stopOf stream.tokens⟩ }

variable {s : ParserState} {stream : TokenStream} {m : Nat}

theorem after_peek (provides : stream.Provides (m + 1)) :
    (s.after stream m).cursor.peek = .ok (stream.tokenAt m) := by
  rw [after, Cursor.peek]
  by_cases inside : m < stream.tokens.length
  · rw [List.drop_eq_getElem_cons inside, TokenStream.tokenAt_of_lt inside]
  · have past := Nat.le_of_not_lt inside
    rw [List.drop_of_length_le past, Cursor.atStop, provides.ended past, TokenStream.tokenAt_of_le past]
    rfl

theorem after_peekSecond (provides : stream.Provides (m + 2)) :
    (s.after stream m).cursor.peekSecond = .ok (stream.tokenAt (m + 1)) := by
  rw [after, Cursor.peekSecond]
  by_cases inside : m + 1 < stream.tokens.length
  · rw [List.drop_eq_getElem_cons (Nat.lt_of_succ_lt inside), List.drop_eq_getElem_cons inside,
      TokenStream.tokenAt_of_lt inside]
  · have past := Nat.le_of_not_lt inside
    have last : (stream.tokens.drop m).length ≤ 1 := by
      rw [List.length_drop]
      omega
    rcases left : stream.tokens.drop m with _ | ⟨_, _ | ⟨_, _⟩⟩
    · rw [Cursor.atStop, provides.ended past, TokenStream.tokenAt_of_le past]
      rfl
    · rw [Cursor.atStop, provides.ended past, TokenStream.tokenAt_of_le past]
      rfl
    · rw [left] at last
      simp at last

theorem after_peek_fault (short : ¬ stream.Provides (m + 1)) {fault : Fault}
    (failed : stream.failure = some fault) : (s.after stream m).cursor.peek = .error fault := by
  have past : stream.tokens.length ≤ m := Nat.le_of_not_lt fun inside => short (.inl inside)
  rw [after, Cursor.peek, List.drop_of_length_le past, Cursor.atStop, failed]

theorem after_peekSecond_fault (short : ¬ stream.Provides (m + 2))
    {fault : Fault} (failed : stream.failure = some fault) : (s.after stream m).cursor.peekSecond = .error fault := by
  have last : (stream.tokens.drop m).length ≤ 1 := by
    have past : ¬ m + 2 ≤ stream.tokens.length := fun inside => short (.inl inside)
    rw [List.length_drop]
    omega
  rw [after, Cursor.peekSecond]
  rcases left : stream.tokens.drop m with _ | ⟨_, _ | ⟨_, _⟩⟩
  · rw [Cursor.atStop, failed]
  · rw [Cursor.atStop, failed]
  · rw [left] at last
    simp at last

theorem after_tail : (s.after stream m).past (s.after stream m).cursor.tokens.tail = s.after stream (m + 1) := by
  rw [after, List.tail_drop]
  rfl

theorem after_tail_tail :
    (s.after stream m).past (s.after stream m).cursor.tokens.tail.tail = s.after stream (m + 2) := by
  rw [after, List.tail_drop, List.tail_drop]
  rfl

end ParserState

/-- An answer of the parser: a fault that is worded is reported at once. -/
def CursorAnswer.raised : CursorAnswer → Except Fault CursorAnswer
  | .worded fault => .error fault
  | answer => .ok answer

namespace CursorCall

variable {s : ParserState} {stream : TokenStream} {m : Nat}

/-- Makes a call of the cursor that the parser runs on. -/
def parse : CursorCall → Parser CursorAnswer
  | .peek => .shown <$> Parser.peek
  | .peekSecond => .shown <$> Parser.peekSecond
  | .sees kind => .isKind <$> Parser.sees kind
  | .atEnd => .isKind <$> Parser.sees .endOfInput
  | .advance => (.handed [·]) <$> Parser.advance
  | .accept kind => (fun t => .handed t.toList) <$> Parser.accept kind
  | .acceptTwo j k => (fun ts => .handed (ts.elim [] fun (a, b) => [a, b])) <$> Parser.acceptTwo j k
  | .expect kind what => (.handed [·]) <$> Parser.expect kind what
  | .unexpected what => Parser.unexpected what

/-- Where the text provides the tokens that a call looks at, the parser gets the answer that they give. -/
theorem parse_answers (call : CursorCall) (provides : stream.Provides (m + call.looks)) :
    call.parse (s.after stream m) =
      (call.answer (stream.tokenAt m) (stream.tokenAt (m + 1)) >>= CursorAnswer.raised).map fun answer =>
        (answer, s.after stream (m + answer.tokens.length)) := by
  have next := s.after_peek (provides.mono (Nat.add_le_add_left call.looks_pos m))
  cases call with
  | peek => exact Parser.map_of (Parser.peek_of next)
  | peekSecond => exact Parser.map_of (Parser.peekSecond_of (s.after_peekSecond provides))
  | sees kind => exact Parser.map_of (Parser.sees_of next kind)
  | atEnd => exact Parser.map_of (Parser.sees_of next .endOfInput)
  | advance =>
    have taken := Parser.advance_of next
    rw [ParserState.after_tail] at taken
    exact Parser.map_of taken
  | accept kind =>
    have accepted := Parser.accept_of next kind
    rw [ParserState.after_tail] at accepted
    dsimp only [answer]
    split at accepted
    · next here =>
      rw [if_pos here]
      exact Parser.map_of accepted
    · next other =>
      rw [if_neg other]
      exact Parser.map_of accepted
  | acceptTwo first second =>
    have accepted := Parser.acceptTwo_of next (s.after_peekSecond provides) first second
    rw [ParserState.after_tail_tail] at accepted
    dsimp only [answer]
    split at accepted
    · next here =>
      rw [if_pos here]
      exact Parser.map_of accepted
    · next other =>
      rw [if_neg other]
      exact Parser.map_of accepted
  | expect kind what =>
    have expected := Parser.expect_of next kind what
    rw [ParserState.after_tail] at expected
    dsimp only [answer]
    split at expected
    · next here =>
      rw [if_pos here]
      exact Parser.map_of expected
    · next other =>
      rw [if_neg other]
      exact Parser.map_fault expected
  | unexpected what => exact Parser.unexpected_of next what

/-- Where it does not provide them, the parser gets the fault. -/
theorem parse_fails (call : CursorCall) (short : ¬ stream.Provides (m + call.looks)) {fault : Fault}
    (failed : stream.failure = some fault) : call.parse (s.after stream m) = .error fault := by
  have unseen : ¬ stream.Provides (m + 1) → ∀ kind, Parser.sees kind (s.after stream m) = .error fault :=
    fun none kind => Parser.bind_fault (Parser.peek_fault (s.after_peek_fault none failed))
  cases call with
  | peek => exact Parser.map_fault (Parser.peek_fault (s.after_peek_fault short failed))
  | peekSecond => exact Parser.map_fault (Parser.peekSecond_fault (s.after_peekSecond_fault short failed))
  | sees kind => exact Parser.map_fault (unseen short kind)
  | atEnd => exact Parser.map_fault (unseen short .endOfInput)
  | advance => exact Parser.map_fault (Parser.advance_fault (s.after_peek_fault short failed))
  | accept kind => exact Parser.map_fault (Parser.bind_fault (unseen short kind))
  | acceptTwo first second =>
    -- The fault may already stand at the first of the two tokens.
    by_cases one : stream.Provides (m + 1)
    · have next := Parser.peek_of (s.after_peek one)
      have unshown := Parser.peekSecond_fault (s.after_peekSecond_fault short failed)
      exact Parser.map_fault ((Parser.bind_eq next).trans (Parser.bind_fault unshown))
    · exact Parser.map_fault (Parser.bind_fault (Parser.peek_fault (s.after_peek_fault one failed)))
  | expect kind what => exact Parser.map_fault (Parser.bind_fault (Parser.bind_fault (unseen short kind)))
  | unexpected what => exact Parser.bind_fault (Parser.peek_fault (s.after_peek_fault short failed))

/-- The parser gets the replies of the text, and goes past the tokens that are handed out. -/
theorem parse_eq (call : CursorCall) :
    call.parse (s.after stream m) = (call.reply stream m >>= CursorAnswer.raised).map fun answer =>
      (answer, s.after stream (m + answer.tokens.length)) := by
  by_cases provides : stream.Provides (m + call.looks)
  · rw [reply_of_provides provides]
    exact call.parse_answers provides
  · obtain ⟨fault, failed⟩ := Option.ne_none_iff_exists'.mp (not_or.mp provides).2
    rw [reply_of_short provides failed]
    exact call.parse_fails provides failed

end CursorCall

namespace Lookahead

variable {r : Lexer.Reader} {stream : TokenStream} {m : Nat} {c : Lookahead}

/-- Makes calls one after the other, up to the first one that comes upon a fault of the text: the tokens that they hand
out, and the cursor after them. -/
def run : List CursorCall → Lookahead → Except Fault (List Token × Lookahead)
  | [], c => .ok ([], c)
  | call :: calls, c =>
    match call.perform c with
    | .ok answer c => (run calls c).map fun rest => (answer.tokens ++ rest.1, rest.2)
    | .error fault c => if fault.cause.isLexical then .error fault else run calls c

theorem ready_ofSource (source : String) :
    (ofSource source).Ready (.ofSource source) (.ofSource source) 0 0 :=
  ⟨0, Nat.le_refl 0, rfl, rfl, rfl, .inl (Nat.zero_le _)⟩

/-- Calls hand out the next tokens, and leave the cursor after them. -/
theorem Ready.run (reads : r.Reads stream)
    (lexical : ∀ fault, stream.failure = some fault → fault.cause.isLexical = true) (calls : List CursorCall)
    (ready : c.Ready r stream m 0) :
    match run calls c with
    | .ok (handed, c') => handed = (List.range' m handed.length).map stream.tokenAt ∧
        c'.Ready r stream (m + handed.length) 0
    | .error fault => stream.failure = some fault := by
  induction calls generalizing m c with
  | nil => exact ⟨rfl, ready⟩
  | cons call calls ih =>
    by_cases provides : stream.Provides (m + call.looks)
    · obtain ⟨c₁, made⟩ := call.perform_answers reads ready provides
      cases answered : call.answer (stream.tokenAt m) (stream.tokenAt (m + 1)) with
      | ok answer =>
        rw [answered] at made
        have here := CursorCall.answer_tokens answered
        have rest := ih made.2
        simp only [Lookahead.run, made.1]
        cases ran : Lookahead.run calls c₁ with
        | error fault =>
          rw [ran] at rest
          exact rest
        | ok result =>
          obtain ⟨handed, c₂⟩ := result
          rw [ran] at rest
          change answer.tokens ++ handed = (List.range' m (answer.tokens ++ handed).length).map stream.tokenAt ∧
            c₂.Ready r stream (m + (answer.tokens ++ handed).length) 0
          rw [List.length_append, ← List.range'_append_1, List.map_append, ← here, ← rest.1, ← Nat.add_assoc]
          exact ⟨rfl, rest.2⟩
      | error fault =>
        rw [answered] at made
        simp only [Lookahead.run, made.1]
        rw [if_neg (by simp [CursorCall.answer_error answered])]
        exact ih made.2
    · obtain ⟨fault, c₁, made, failed⟩ := call.perform_fails reads ready provides
      simp only [Lookahead.run, made]
      rw [if_pos (lexical fault failed)]
      exact failed

/-- What a call comes to, without the cursor after it. -/
def outcome {α : Type} : EStateM.Result Fault Lookahead α → Except Fault α
  | .ok a _ => .ok a
  | .error fault _ => .error fault

theorem Ready.outcome_perform (reads : r.Reads stream) (ready : c.Ready r stream m 0) (call : CursorCall) :
    outcome (call.perform c) = call.reply stream m := by
  by_cases provides : stream.Provides (m + call.looks)
  · obtain ⟨c', made⟩ := call.perform_answers reads ready provides
    rw [CursorCall.reply_of_provides provides]
    cases answered : call.answer (stream.tokenAt m) (stream.tokenAt (m + 1)) with
    | ok answer =>
      rw [answered] at made
      rw [made.1]
      rfl
    | error fault =>
      rw [answered] at made
      rw [made.1]
      rfl
  · obtain ⟨fault, c', made, failed⟩ := call.perform_fails reads ready provides
    rw [CursorCall.reply_of_short provides failed, made]
    rfl

/-- **Lookahead loses nothing.** Whatever calls are made of a cursor over a text, up to the first that comes upon the
fault of the text: what they hand out are the first tokens of the text, with end tokens after the last one. The next
call answers by the tokens that come after these, and so does the cursor of the parser when it has gone past them. -/
theorem ofSource_in_order (source : String) (calls : List CursorCall) :
    match run calls (ofSource source) with
    | .error fault => (TokenStream.ofSource source).failure = some fault
    | .ok (handed, c) =>
      handed <+: (TokenStream.ofSource source).padded handed.length ∧
      ∀ call : CursorCall,
        outcome (call.perform c) = call.reply (.ofSource source) handed.length ∧
        ∀ s : ParserState, call.parse (s.after (.ofSource source) handed.length) =
          (call.reply (.ofSource source) handed.length >>= CursorAnswer.raised).map fun answer =>
            (answer, s.after (.ofSource source) (handed.length + answer.tokens.length)) := by
  have reads := Lexer.Reader.ofSource_reads source
  have ran := (ready_ofSource source).run reads (fun _ => TokenStream.ofSource_lexical) calls
  cases result : run calls (ofSource source) with
  | error fault =>
    rw [result] at ran
    exact ran
  | ok pair =>
    obtain ⟨handed, c⟩ := pair
    rw [result] at ran
    obtain ⟨inOrder, ready⟩ := ran
    rw [Nat.zero_add] at ready
    constructor
    · rw [inOrder, List.length_map, List.length_range']
      obtain ⟨b, -, holds⟩ := ready
      exact TokenStream.tokenAt_prefix (holds.provided.mono (Nat.le_add_right _ b))
    · intro call
      constructor
      · exact ready.outcome_perform reads call
      · exact fun s => call.parse_eq

end Lookahead

end ScriptEngine
