import ScriptEngine.Proofs.Lexemes

/-! # Tokens do not depend on their spacing

The tokens of a source text, written again with other blanks and comments between them, are read as the same
tokens. Between two tokens a blank comes first: a comment alone would part them as well, except after a slash,
which takes the first character of the comment for itself.
-/

namespace ScriptEngine

/-- What a token says wherever it stands. -/
def Token.content (t : Token) : TokenKind × Option Literal × String := (t.kind, t.literal, t.text)

/-- A text that has the given tokens in this order, each with a filler after it. A blank begins the filler
between two tokens, and the filler after a slash that is the last token begins with no comment. -/
inductive Spaced : List Token → List Char → Prop where
  | nil : Spaced [] []
  | cons {t : Token} {ts : List Token} {filler cs : List Char} (filled : Filler false filler)
      (parted : ts ≠ [] → ∃ c ∈ filler.head?, Text.isBlank c = true)
      (apart : ts = [] → t.kind = .symbol .slash → ∀ c ∈ filler.head?, Text.isBlank c = true)
      (more : Spaced ts cs) : Spaced (t :: ts) (t.text.toList ++ (filler ++ cs))

namespace Lexer

/-- Tokens that are lexemes one after the other; whether a number may have a sign depends on the token before
it. -/
inductive Sequence : Bool → List Token → Prop where
  | nil (afterOperand : Bool) : Sequence afterOperand []
  | cons {afterOperand : Bool} {t : Token} {ts : List Token}
      (lexeme : Lexeme afterOperand t.text.toList t.kind t.literal)
      (more : Sequence t.kind.endsOperand ts) : Sequence afterOperand (t :: ts)

/-- What the lexer collects is such a sequence. -/
theorem collect_sequence (fuel : Nat) (s : State) : Sequence s.afterOperand (collect fuel s).1 := by
  induction fuel generalizing s with
  | zero => exact .nil _
  | succ fuel ih =>
    rcases read : next s with fault | _ | ⟨t, s'⟩
    · simpa [collect, read] using .nil _
    · simpa [collect, read] using .nil _
    · obtain ⟨p, c, cs, -, found⟩ := next_some read
      obtain ⟨text, rest, kind, literal, -, lexeme, made⟩ := token_ok found
      obtain ⟨rfl, rfl⟩ := Prod.mk.inj made
      simp only [collect, read]
      exact .cons (by simpa using lexeme) (ih ⟨rest, p.right text.length, kind.endsOperand⟩)

theorem not_blank_of_isWordChar {c : Char} (word : isWordChar c = true) : Text.isBlank c = false := by
  by_contra blank
  have notWord := Parts.not_wordChar (.inl (by simpa using blank))
  simp [word] at notWord

/-- How a lexeme begins: not with a blank, and with a slash only where it is that symbol. -/
theorem Lexeme.begins {afterOperand : Bool} {text : List Char} {kind : TokenKind} {literal : Option Literal}
    (lexeme : Lexeme afterOperand text kind literal) :
    ∃ c cs, text = c :: cs ∧ Text.isBlank c = false ∧ (c = '/' → kind = .symbol .slash ∧ cs = []) := by
  cases lexeme with
  | number isSign unsigned isDecimal value =>
    obtain ⟨d, more, rfl, digit⟩ := isDecimal.begins
    rcases isSign with rfl | rfl | rfl
    · have word : isWordChar d = true := by simp [isWordChar, Char.isAlphanum, digit]
      exact ⟨d, more, rfl, not_blank_of_isWordChar word, by rintro rfl; contradiction⟩
    · exact ⟨'+', _, rfl, rfl, fun slash => absurd slash (by decide)⟩
    · exact ⟨'-', _, rfl, rfl, fun slash => absurd slash (by decide)⟩
  | @keyword c word _ starts | @ident c word starts =>
    exact ⟨c, word, rfl, not_blank_of_isWordChar (isWordChar_of_isWordStart starts), by
      rintro rfl; contradiction⟩
  | @string quote body value isQuote reads =>
    rcases isQuote with rfl | rfl <;> exact ⟨_, body, rfl, rfl, fun slash => absurd slash (by decide)⟩
  | symbol s => cases s <;> exact ⟨_, _, rfl, rfl, by decide⟩

/-- Nothing is skipped at a lexeme, unless it is a slash that begins a comment. -/
theorem Lexeme.stops {afterOperand : Bool} {text : List Char} {kind : TokenKind} {literal : Option Literal}
    (lexeme : Lexeme afterOperand text kind literal) {rest : List Char}
    (apart : kind = .symbol .slash → ∀ c ∈ rest.head?, Text.isBlank c = true) :
    Stops (text ++ rest) := by
  obtain ⟨c, cs, rfl, visible, slash⟩ := lexeme.begins
  have noComment : ∀ d more, Text.isBlank d = false → c = '/' → cs ++ rest = d :: more → False := by
    rintro d more visible isSlash next
    obtain ⟨isSymbol, rfl⟩ := slash isSlash
    have blank := apart isSymbol d (by rw [show rest = d :: more from next]; rfl)
    simp [blank] at visible
  exact ⟨by simpa using visible, not_opens_pair fun more => noComment '/' more rfl,
    not_opens_pair fun more => noComment '*' more rfl⟩

end Lexer

/-- A complete filler begins with a blank or a comment. -/
theorem Filler.parts {filler : List Char} (filled : Filler false filler) : ∀ c ∈ filler.head?, Lexer.Parts c := by
  cases filled with
  | nil => exact nofun
  | blank blank => exact fun c at' => .inl (by cases at'; exact blank)
  | lineComment => exact fun c at' => .inr (by cases at'; rfl)
  | blockComment => exact fun c at' => .inr (by cases at'; rfl)
  | unended isLast => contradiction

/-- After a token that is spaced anew comes a character that parts tokens, and none that makes a comment of a
slash. -/
theorem Spaced.next {t : Token} {ts : List Token} {filler cs : List Char} (more : Spaced ts cs)
    (filled : Filler false filler) (parted : ts ≠ [] → ∃ c ∈ filler.head?, Text.isBlank c = true)
    (apart : ts = [] → t.kind = .symbol .slash → ∀ c ∈ filler.head?, Text.isBlank c = true) :
    ∀ c ∈ (filler ++ cs).head?, Lexer.Parts c ∧ (t.kind = .symbol .slash → Text.isBlank c = true) := by
  cases more with
  | nil =>
    rw [List.append_nil]
    exact fun c here => ⟨filled.parts c here, fun isSlash => apart rfl isSlash c here⟩
  | cons =>
    obtain ⟨d, head, blank⟩ := parted nofun
    intro c here
    obtain rfl : d = c := by
      rw [List.head?_append_of_ne_nil _ (by rintro rfl; contradiction)] at here
      exact Option.some.inj (head.symm.trans here)
    exact ⟨.inl blank, fun _ => blank⟩

namespace Lexer

/-- The lexer passes a filler and reads the lexeme after it, where the character behind that one parts
tokens and makes no comment of a slash. -/
theorem next_lexeme {s : State} {filler text rest : List Char} {kind : TokenKind} {literal : Option Literal}
    (at' : s.rest = filler ++ (text ++ rest)) (filled : Filler false filler)
    (lexeme : Lexeme s.afterOperand text kind literal) (parts : ∀ c ∈ rest.head?, Parts c)
    (apart : kind = .symbol .slash → ∀ c ∈ rest.head?, Text.isBlank c = true) :
    ∃ p, next s = .ok (some (emit kind literal p text rest)) := by
  have skipped := skip_filler filled (lexeme.stops apart) s.position
  obtain ⟨c, cs, same, found⟩ := lexeme.token_eq parts (s.position.walk filler (text ++ rest))
  rw [← at', same] at skipped
  refine ⟨s.position.walk filler (text ++ rest), ?_⟩
  rw [next_of_skip skipped, ← same, found]
  rfl

/-- Before a sequence of tokens that are spaced anew, the lexer reads those tokens to the end. -/
theorem collect_spaced {ts : List Token} {cs : List Char} (spaced : Spaced ts cs) {s : State}
    (sequence : Sequence s.afterOperand ts) {filler : List Char} (filled : Filler false filler)
    (at' : s.rest = filler ++ cs) {fuel : Nat} (enough : s.rest.length < fuel) :
    (collect fuel s).2 = none ∧ (collect fuel s).1.map Token.content = ts.map Token.content := by
  induction fuel generalizing s ts cs filler with
  | zero => contradiction
  | succ fuel ih =>
    cases spaced with
    | nil =>
      have atEnd : Stops [] := by simp [Stops]
      have skipped := skip_filler filled atEnd s.position
      rw [← at'] at skipped
      simp [collect, next_of_skip_nil skipped]
    | @cons t ts gap cs gapFilled parted apart more =>
      cases sequence with
      | cons lexeme others =>
        have after := more.next gapFilled parted apart
        obtain ⟨p, read⟩ := next_lexeme at' filled lexeme (fun c here => (after c here).1)
          fun isSlash c here => (after c here).2 isSlash
        have shorter : (gap ++ cs).length < s.rest.length := next_shorter read
        obtain ⟨clean, contents⟩ :=
          ih more (s := ⟨gap ++ cs, p.right t.text.toList.length, t.kind.endsOperand⟩) others gapFilled rfl
            (Nat.lt_of_lt_of_le shorter (Nat.le_of_lt_succ enough))
        simp only [collect, read]
        refine ⟨clean, ?_⟩
        rw [List.map_cons, List.map_cons, emit, contents]
        simp [Token.content]

end Lexer

/-- The tokens of a source text do not depend on its spacing: written in the same order with other blanks and
complete comments before, between and after them, they are read with the same kinds, constants and texts, and
without a fault. A blank begins the filler between two tokens, and after a slash at the end no comment follows
at once. -/
theorem TokenStream.ofSource_spaced (source : String) {filler cs : List Char} (filled : Filler false filler)
    (spaced : Spaced (TokenStream.ofSource source).tokens cs) :
    (TokenStream.ofSource (.ofList (filler ++ cs))).failure = none ∧
    (TokenStream.ofSource (.ofList (filler ++ cs))).tokens.map Token.content =
      (TokenStream.ofSource source).tokens.map Token.content := by
  have sequence := Lexer.collect_sequence ((Lexer.State.ofSource source).rest.length + 1) (.ofSource source)
  exact Lexer.collect_spaced (s := .ofSource (.ofList (filler ++ cs))) spaced sequence filled
    String.toList_ofList (Nat.lt_succ_self _)

/-- A division, spread out: its tokens are read from between blanks and comments. -/
theorem TokenStream.division_spaced :
    Filler false [' '] ∧ Spaced (TokenStream.ofSource "a/b").tokens "a\t/ //c\nb/**/".toList ∧
    (TokenStream.ofSource (.ofList ([' '] ++ "a\t/ //c\nb/**/".toList))).failure = none ∧
    (TokenStream.ofSource (.ofList ([' '] ++ "a\t/ //c\nb/**/".toList))).tokens.map Token.content =
      (TokenStream.ofSource "a/b").tokens.map Token.content := by
  have first : Filler false [' '] := .blank rfl .nil
  have tab : Filler false ['\t'] := .blank rfl .nil
  have line : Filler false (' ' :: '/' :: '/' :: (['c'] ++ '\n' :: [])) :=
    .blank rfl (.lineComment (by simp [isLineBreak]) rfl .nil)
  have block : Filler false ('/' :: '*' :: ([] ++ '*' :: '/' :: [])) := .blockComment (by decide) .nil
  have spaced : Spaced (TokenStream.ofSource "a/b").tokens "a\t/ //c\nb/**/".toList :=
    .cons tab (fun _ => ⟨'\t', rfl, rfl⟩) (fun isLast => absurd isLast (List.cons_ne_nil _ _)) <|
      .cons line (fun _ => ⟨' ', rfl, rfl⟩) (fun isLast => absurd isLast (List.cons_ne_nil _ _)) <|
        .cons block (fun more => absurd rfl more) (fun _ isSlash => TokenKind.noConfusion isSlash) .nil
  exact ⟨first, spaced, TokenStream.ofSource_spaced "a/b" first spaced⟩

/-- A slash at the end takes for its own a comment that follows at once: the text then has no token. -/
theorem TokenStream.slash_before_comment :
    (TokenStream.ofSource "/").failure = none ∧
    (TokenStream.ofSource "/").tokens.map Token.text = ["/"] ∧ Filler false "/**/".toList ∧
    (TokenStream.ofSource (.ofList ("/".toList ++ "/**/".toList))).tokens.map Token.text = [] := by
  have block : Filler false ('/' :: '*' :: ([] ++ '*' :: '/' :: [])) := .blockComment (by decide) .nil
  exact ⟨rfl, rfl, block, rfl⟩

end ScriptEngine
