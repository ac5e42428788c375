import ScriptEngine.Proofs.Lexemes

/-! # Tokens in their text

The tokens of a source text stand in it one after the other, each at the line and column of its offset, and
nothing but blanks and complete comments stands between them. After the last one the text ends in the same
way, or it goes on to the fault that is reported, at the place where its cause stands.
-/

namespace ScriptEngine

/-- At the offset the source has exactly the text of the token, which is not empty and lies on one line, and
the place of the token is that of the offset. -/
structure Token.StandsAt (t : Token) (source : List Char) (offset : Nat) : Prop where
  text : t.text.toList <+: source.drop offset
  some : t.text.toList ≠ []
  inLine : ∀ c ∈ t.text.toList, isLineBreak c = false
  place : t.position = .ofOffset source offset

/-- Tokens at their offsets, from one offset of a source to another, with fillers between them. -/
inductive Tiles (source : List Char) : Nat → List (Nat × Token) → Nat → Prop where
  | nil (offset : Nat) : Tiles source offset [] offset
  | cons {before start stop : Nat} {t : Token} {placed : List (Nat × Token)} (later : before ≤ start)
      (filled : Filler false ((source.take start).drop before)) (stands : t.StandsAt source start)
      (more : Tiles source (start + t.text.length) placed stop) :
      Tiles source before ((start, t) :: placed) stop

/-- A number begins here: a digit, perhaps after a sign. -/
def BeginsNumber (text : List Char) : Prop :=
  ∃ signs d more, text = signs ++ d :: more ∧ Lexer.IsSign signs ∧ d.isDigit = true

/-- What a lexical fault complains of begins this text: the character, the number with all that spoils it, a
quote that no string goes on from, or the mark of a comment that is never closed. -/
def SyntaxError.Begins : SyntaxError → List Char → Prop
  | .unexpectedCharacter c, cs => cs.head? = some c
  | .malformedNumber text, cs => text.toList <+: cs ∧ BeginsNumber text.toList
  | .unterminatedString, cs => ∃ quote rest, cs = quote :: rest ∧ Lexer.IsQuote quote ∧
      Lexer.string? quote rest = none
  | .unterminatedComment, cs => ∃ rest, cs = '/' :: '*' :: rest ∧ ¬ ['*', '/'] <:+: rest
  | _, _ => False

/-- How a source goes on after its last token: it ends after a last filler, or a fault stands after one. -/
def EndsAt (source : List Char) (stop : Nat) : Option Fault → Prop
  | none => Filler true (source.drop stop)
  | some fault => ∃ offset, stop ≤ offset ∧ Filler false ((source.take offset).drop stop) ∧
      fault.position = .ofOffset source offset ∧ fault.cause.Begins (source.drop offset)

namespace Lexer

/-- A number is refused for the letters or digits right after it, and reported with them. -/
theorem numberToken_error {p : Position} {c : Char} {signs more : List Char} {fault : Fault}
    (isSign : IsSign signs) (digit : c.isDigit = true)
    (failed : numberToken p (signs ++ c :: more) = .error fault) :
    fault.position = p ∧ fault.cause.Begins (signs ++ c :: more) := by
  revert failed
  fun_cases numberToken p (signs ++ c :: more) with
  | case1 => rintro ⟨⟩
  | case2 text rest split tail spoiled =>
    rintro ⟨⟩
    obtain ⟨body, whole, rfl, isDecimal⟩ := eq_of_number isSign digit split
    obtain ⟨d, body, rfl, -⟩ := isDecimal.begins
    obtain ⟨rfl, -⟩ := List.cons.inj whole
    refine ⟨rfl, ?_, ?_⟩
    · rw [whole, String.toList_ofList, List.append_assoc]
      exact (List.prefix_append_right_inj _).mpr
        ((List.prefix_append_right_inj _).mpr (List.takeWhile_prefix _))
    · exact ⟨signs, c, body ++ tail, by simp, isSign, digit⟩

theorem token_error {afterOperand : Bool} {p : Position} {c : Char} {cs : List Char} {fault : Fault}
    (failed : token afterOperand p c cs = .error fault) :
    fault.position = p ∧ fault.cause.Begins (c :: cs) := by
  revert failed
  fun_cases token afterOperand p c cs with
  | case1 signed begins =>
    obtain ⟨signs, d, more, same, isSign, -, digit⟩ := number_begins.mp begins
    rw [same]
    exact numberToken_error isSign digit
  | case2 => rintro ⟨⟩
  | case3 => rintro ⟨⟩
  | case4 signed notNumber notWord isQuote unread =>
    rintro ⟨⟩
    exact ⟨rfl, c, cs, rfl, by simpa [IsQuote] using isQuote, unread⟩
  | case5 => rintro ⟨⟩
  | case6 =>
    rintro ⟨⟩
    exact ⟨rfl, rfl⟩

theorem Stops.settled {rest : List Char} (stops : Stops rest) : rest.head? ≠ some '\n' := by
  intro head
  have visible := stops.1 '\n' head
  contradiction

/-- The lexer has passed a part of the source and is at the place after it. -/
structure State.HasPassed (s : State) (source before : List Char) : Prop where
  whole : source = before ++ s.rest
  place : s.position = Position.start.walk before s.rest

theorem State.ofSource_hasPassed (source : String) : (State.ofSource source).HasPassed source.toList [] :=
  ⟨rfl, rfl⟩

variable {s s' : State} {source before : List Char}

/-- Where the lexer stops after a filler, it is at the place of that offset. -/
theorem State.HasPassed.skip_ok (passed : s.HasPassed source before) {p : Position} {rest : List Char}
    (skipped : skip .blank s.position s.rest = .ok (p, rest)) :
    ∃ filler, source = before ++ filler ++ rest ∧ Filler rest.isEmpty filler ∧
      p = Position.start.walk (before ++ filler) rest ∧ p = .ofOffset source (before ++ filler).length := by
  obtain ⟨filler, split, filled, rfl, stops⟩ := Lexer.skip_ok skipped
  have whole : source = before ++ filler ++ rest := by rw [passed.whole, split, List.append_assoc]
  have place : s.position.walk filler rest = Position.start.walk (before ++ filler) rest := by
    rw [Position.walk_append, passed.place, split]
  refine ⟨filler, whole, filled, place, ?_⟩
  rw [place, Position.walk_start stops.settled, whole, Position.ofOffset_append]

/-- The next token comes after a filler, and the lexer has then passed both. -/
theorem next_token {t : Token} (passed : s.HasPassed source before)
    (read : next s = .ok (some (t, s'))) :
    ∃ filler, Filler false filler ∧ t.StandsAt source (before ++ filler).length ∧
      s'.HasPassed source (before ++ filler ++ t.text.toList) := by
  obtain ⟨p, c, cs, skipped, read⟩ := next_some read
  obtain ⟨filler, whole, filled, walked, place⟩ := passed.skip_ok skipped
  obtain ⟨text, rest, kind, literal, same, lexeme, made⟩ := token_ok read
  obtain ⟨rfl, rfl⟩ := Prod.mk.inj made
  refine ⟨filler, filled, ⟨?_, ?_, ?_, place⟩, ?_, ?_⟩
  · rw [String.toList_ofList, whole, same, List.drop_left]
    exact List.prefix_append text rest
  · simpa using lexeme.ne_nil
  · simpa using lexeme.inLine
  · rw [String.toList_ofList, whole, same]
    simp
  · have ends : p.right text.length = p.walk text rest := (Position.walk_of_inLine lexeme.inLine p rest).symm
    change p.right text.length = Position.start.walk (before ++ filler ++ (String.ofList text).toList) rest
    rw [ends, walked, same, String.toList_ofList, Position.walk_append _ (before ++ filler)]

/-- At the end only a filler was left. -/
theorem next_end (passed : s.HasPassed source before) (read : next s = .ok none) :
    Filler true (source.drop before.length) := by
  obtain ⟨p, skipped⟩ := next_none read
  obtain ⟨filler, whole, filled, -⟩ := passed.skip_ok skipped
  rw [whole, List.append_nil, List.drop_left]
  exact filled

/-- A fault comes after a filler, where its cause stands. -/
theorem next_endsAt {fault : Fault} (passed : s.HasPassed source before)
    (failed : next s = .error fault) : EndsAt source before.length (some fault) := by
  suffices ∃ filler rest, source = before ++ filler ++ rest ∧ Filler false filler ∧
      fault.position = .ofOffset source (before ++ filler).length ∧ fault.cause.Begins rest by
    obtain ⟨filler, rest, rfl, filled, place, begins⟩ := this
    refine ⟨(before ++ filler).length, by simp, ?_, place, ?_⟩
    · rw [List.take_left, List.drop_left]
      exact filled
    · rw [List.drop_left]
      exact begins
  rcases next_error failed with skipped | ⟨p, c, cs, skipped, read⟩
  · rcases skip_error skipped with ⟨_, isBlock, _⟩ | ⟨filler, rest, split, filled, unclosed, rfl⟩
    · contradiction
    · have whole : source = before ++ filler ++ '/' :: '*' :: rest := by
        rw [passed.whole, split, List.append_assoc]
      refine ⟨filler, _, whole, filled, ?_, rest, rfl, unclosed⟩
      rw [passed.place, split, ← Position.walk_append, Position.walk_start (by simp), whole,
        Position.ofOffset_append]
  · obtain ⟨filler, whole, filled, -, place⟩ := passed.skip_ok skipped
    obtain ⟨rfl, begins⟩ := token_error read
    exact ⟨filler, c :: cs, whole, filled, place, begins⟩

/-- What the lexer collects tiles what it had not passed. -/
theorem collect_tiles (fuel : Nat) (passed : s.HasPassed source before) (enough : s.rest.length < fuel) :
    ∃ placed stop, placed.map Prod.snd = (collect fuel s).1 ∧ Tiles source before.length placed stop ∧
      EndsAt source stop (collect fuel s).2 := by
  induction fuel generalizing s before with
  | zero => contradiction
  | succ fuel ih =>
    rcases read : next s with fault | _ | ⟨t, s'⟩
    · refine ⟨[], before.length, ?_, .nil _, ?_⟩
      · simp [collect, read]
      · simpa [collect, read] using next_endsAt passed read
    · refine ⟨[], before.length, ?_, .nil _, ?_⟩
      · simp [collect, read]
      · simpa [collect, read, EndsAt] using next_end passed read
    · obtain ⟨filler, filled, stands, passed'⟩ := next_token passed read
      have shorter := next_shorter read
      obtain ⟨placed, stop, tokens, tiles, ends⟩ := ih passed' (by omega)
      refine ⟨((before ++ filler).length, t) :: placed, stop, ?_, ?_, ?_⟩
      · simp [collect, read, tokens]
      · refine .cons (by simp) ?_ stands ?_
        · rw [passed'.whole, List.append_assoc, List.take_left, List.drop_left]
          exact filled
        · simpa only [List.length_append, String.length_toList] using tiles
      · simpa [collect, read] using ends

namespace Reader

/-- The reader after it was asked `n` times. -/
def asked (r : Reader) : Nat → Reader
  | 0 => r
  | n + 1 => r.pull.2.asked n

/-- A reader that handed out nothing hands out nothing ever after. -/
theorem asked_of_pull {r : Reader} (ended : r.pull = (none, r)) (n : Nat) : (r.asked n).pull.1 = none := by
  induction n with
  | zero => rw [asked, ended]
  | succ n ih => rwa [asked, ended]

/-- Asked again and again, the reader hands out what the lexer collects, then the fault if there is one, and
nothing after that. -/
theorem asked_pull (fuel : Nat) {s : State} (enough : s.rest.length < fuel) (n : Nat) :
    ((asked ⟨s, false⟩ n).pull.1 : Option (Except Fault Token)) =
      ((collect fuel s).1.map .ok ++ (collect fuel s).2.toList.map .error)[n]? := by
  induction fuel generalizing s n with
  | zero => contradiction
  | succ fuel ih =>
    rcases read : next s with fault | _ | ⟨t, s'⟩
    · have first : pull ⟨s, false⟩ = (some (.error fault), ⟨s, true⟩) := by simp [pull, read]
      cases n with
      | zero => simp [asked, first, collect, read]
      | succ n =>
        rw [asked, first, asked_of_pull rfl]
        simp [collect, read]
    · rw [asked_of_pull (by simp [pull, read])]
      simp [collect, read]
    · have first : pull ⟨s, false⟩ = (some (.ok t), ⟨s', false⟩) := by simp [pull, read]
      cases n with
      | zero => simp [asked, first, collect, read]
      | succ n =>
        have shorter := next_shorter read
        rw [asked, first, ih (by omega)]
        simp [collect, read]

end Reader

end Lexer

theorem Tiles.after {source : List Char} {before stop : Nat} {placed : List (Nat × Token)}
    (tiles : Tiles source before placed stop) : ∀ start ∈ placed.map Prod.fst, before ≤ start := by
  induction tiles with
  | nil => exact nofun
  | @cons before start stop t placed later filled stands more ih =>
    refine List.forall_mem_cons.mpr ⟨later, fun next at' => ?_⟩
    have := ih next at'
    omega

/-- The offsets increase. -/
theorem Tiles.increasing {source : List Char} {before stop : Nat} {placed : List (Nat × Token)}
    (tiles : Tiles source before placed stop) : (placed.map Prod.fst).Pairwise (· < ·) := by
  induction tiles with
  | nil => exact .nil
  | @cons before start stop t placed later filled stands more ih =>
    refine List.pairwise_cons.mpr ⟨fun next at' => ?_, ih⟩
    have some : 0 < t.text.length := by
      rw [← String.length_toList]
      exact List.length_pos_iff.mpr stands.some
    have := more.after next at'
    omega

/-- The tokens of every source text tile it at their places: they stand in it at increasing offsets with only
blanks and complete comments before, between and after them, up to the end of the text or to the fault that is
reported. A reader of the text hands out these tokens in turn, then the fault if there is one, and nothing
ever after. -/
theorem TokenStream.ofSource_tiles (source : String) :
    (∃ placed stop, placed.map Prod.snd = (TokenStream.ofSource source).tokens ∧
      (placed.map Prod.fst).Pairwise (· < ·) ∧ Tiles source.toList 0 placed stop ∧
      EndsAt source.toList stop (TokenStream.ofSource source).failure) ∧
    ∀ n, ((Lexer.Reader.ofSource source).asked n).pull.1 =
      ((TokenStream.ofSource source).tokens.map .ok ++
        (TokenStream.ofSource source).failure.toList.map .error)[n]? := by
  have enough := Nat.lt_succ_self (Lexer.State.ofSource source).rest.length
  constructor
  · obtain ⟨placed, stop, tokens, tiles, ends⟩ :=
      Lexer.collect_tiles _ (Lexer.State.ofSource_hasPassed source) enough
    exact ⟨placed, stop, tokens, tiles.increasing, tiles, ends⟩
  · exact Lexer.Reader.asked_pull _ enough

end ScriptEngine
