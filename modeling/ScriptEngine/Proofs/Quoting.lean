import ScriptEngine.Proofs.Spacing

/-! # String literals

Every text without a carriage return is what some string literal stands for, in quotes of either kind: a backslash,
the quote and a line feed are escaped, and everything else is written as it is. A carriage return has no escape, and
no literal stands for one. So each string that the lexer reads can be written again, also one with escapes that the
lexer does not know and keeps as they are.
-/

namespace ScriptEngine

namespace Lexer

/-- A character as it is written in a string with the given quotes. -/
def escape (quote c : Char) : List Char :=
  if c = '\\' ∨ c = quote then ['\\', c] else if c = '\n' then ['\\', 'n'] else [c]

/-- The string literal, with the given quotes, that stands for a text. -/
def literalOf (quote : Char) (value : String) : String :=
  String.ofList (quote :: (value.toList.flatMap (escape quote) ++ [quote]))

variable {quote : Char}

namespace IsQuote

theorem ne_backslash (isQuote : IsQuote quote) : quote ≠ '\\' := by
  rcases isQuote with rfl | rfl <;> decide

/-- What is escaped by a backslash alone stands for itself. -/
theorem unescape_eq (isQuote : IsQuote quote) {c : Char} (special : c = '\\' ∨ c = quote) :
    isLineBreak c = false ∧ unescape c = [c] := by
  rcases special with rfl | rfl
  · exact ⟨rfl, rfl⟩
  · rcases isQuote with rfl | rfl <;> exact ⟨rfl, rfl⟩

/-- Behind its opening quote the literal of a text is read up to its closing one, whatever follows. -/
theorem string?_escaped (isQuote : IsQuote quote) {value : List Char} (noReturn : '\r' ∉ value) (rest : List Char) :
    string? quote (value.flatMap (escape quote) ++ quote :: rest) =
      some (value.flatMap (escape quote) ++ [quote], value, rest) := by
  induction value with
  | nil => simp [string?, isQuote.ne_backslash]
  | cons c value ih =>
    have notReturn : c ≠ '\r' := fun same => noReturn (same ▸ List.mem_cons_self)
    have more := ih fun member => noReturn (List.mem_cons_of_mem c member)
    rw [List.flatMap_cons, escape]
    by_cases special : c = '\\' ∨ c = quote
    · obtain ⟨inLine, itself⟩ := isQuote.unescape_eq special
      simp [special, string?, inLine, itself, more]
    · rw [if_neg special]
      obtain ⟨notBackslash, notQuote⟩ := not_or.mp special
      by_cases feed : c = '\n'
      · simp [feed, string?, isLineBreak, unescape, more]
      · have inLine : isLineBreak c = false := by simp [isLineBreak, feed, notReturn]
        simp [feed, string?, notBackslash, notQuote, inLine, more]

end IsQuote

/-- The literal of a text without carriage returns is a lexeme that stands for this text. -/
theorem Lexeme.literalOf {value : String} (isQuote : IsQuote quote) (noReturn : '\r' ∉ value.toList)
    (afterOperand : Bool) :
    Lexeme afterOperand (literalOf quote value).toList .string (some (.string value)) := by
  have lexeme : Lexeme afterOperand _ _ _ := .string isQuote (isQuote.string?_escaped noReturn [])
  rwa [String.ofList_toList, ← String.toList_ofList (l := quote :: _)] at lexeme

/-- No string literal stands for a text with a carriage return. -/
theorem not_return_of_string? {cs text value rest : List Char} (read : string? quote cs = some (text, value, rest)) :
    '\r' ∉ value := by
  fun_induction string? quote cs generalizing text value with
  | case1 => contradiction
  | case2 => contradiction
  | case3 c cs inLine ih =>
    obtain ⟨⟨text, value, rest⟩, read, same⟩ := Option.map_eq_some_iff.mp read
    obtain ⟨rfl, rfl, rfl⟩ := same
    have notReturn : c ≠ '\r' := by rintro rfl; exact inLine rfl
    have escaped : '\r' ∉ unescape c := by
      unfold unescape
      split
      · decide
      · split <;> simp [notReturn.symm]
    exact fun member => (List.mem_append.mp member).elim escaped (ih read)
  | case4 =>
    obtain ⟨rfl, rfl, rfl⟩ := read
    exact List.not_mem_nil
  | case5 => contradiction
  | case6 c cs notEscape notQuote inLine ih =>
    obtain ⟨⟨text, value, rest⟩, read, same⟩ := Option.map_eq_some_iff.mp read
    obtain ⟨rfl, rfl, rfl⟩ := same
    have notReturn : c ≠ '\r' := by rintro rfl; exact inLine rfl
    exact fun member => (List.mem_cons.mp member).elim (fun same => notReturn same.symm) (ih read)

/-- The constant of a string token has no carriage return. -/
theorem Lexeme.string_value {afterOperand : Bool} {text : List Char} {literal : Option Literal}
    (lexeme : Lexeme afterOperand text .string literal) :
    ∃ value : String, literal = some (.string value) ∧ '\r' ∉ value.toList := by
  cases lexeme with
  | string isQuote reads => exact ⟨_, rfl, by simpa using not_return_of_string? reads⟩

/-- Each token of a sequence is a lexeme. -/
theorem Sequence.lexeme {afterOperand : Bool} {ts : List Token} (sequence : Sequence afterOperand ts) :
    ∀ t ∈ ts, ∃ afterOperand, Lexeme afterOperand t.text.toList t.kind t.literal := by
  induction sequence with
  | nil => exact List.forall_mem_nil _
  | cons lexeme more ih => exact List.forall_mem_cons.mpr ⟨⟨_, lexeme⟩, ih⟩

end Lexer

namespace TokenStream

/-- A source text that is a single lexeme is read as a single token. -/
theorem ofSource_lexeme {source : String} {kind : TokenKind} {literal : Option Literal}
    (lexeme : Lexer.Lexeme false source.toList kind literal) :
    TokenStream.ofSource source = ⟨[⟨kind, literal, source, .start⟩], none⟩ := by
  obtain ⟨c, cs, same, found⟩ : ∃ c cs, source.toList ++ [] = c :: cs ∧
      Lexer.token false .start c cs = .ok (Lexer.emit kind literal .start source.toList []) :=
    lexeme.token_eq (by simp) .start
  have stops : Lexer.Stops (source.toList ++ []) := lexeme.stops (by simp)
  rw [same] at stops
  rw [List.append_nil] at same
  have skipped : Lexer.skip .blank .start source.toList = .ok (.start, c :: cs) :=
    same ▸ Lexer.skip_stops stops .start
  have first : Lexer.next (.ofSource source) = .ok (some (Lexer.emit kind literal .start source.toList [])) := by
    rw [Lexer.next_of_skip skipped]
    exact congrArg (some <$> ·) found
  have last (p : Position) (afterOperand : Bool) : Lexer.next ⟨[], p, afterOperand⟩ = .ok none :=
    Lexer.next_of_skip_nil (Lexer.skip_stops (by simp [Lexer.Stops]) p)
  have fuel : (Lexer.State.ofSource source).rest.length = cs.length + 1 := congrArg List.length same
  simp only [ofSource, fuel, Lexer.collect, first, Lexer.emit, last, String.ofList_toList]

/-- String literals can be written and read again, in quotes of either kind. The literal of a text without
carriage returns is read as one token, whose constant is that text. Every string token of a source text has such a
constant, and its literal is read as a token with the same one. -/
theorem literals_round_trip {quote : Char} (isQuote : Lexer.IsQuote quote) :
    (∀ value : String, '\r' ∉ value.toList →
      TokenStream.ofSource (Lexer.literalOf quote value) =
        ⟨[⟨.string, some (.string value), Lexer.literalOf quote value, .start⟩], none⟩) ∧
    ∀ source, ∀ t ∈ (TokenStream.ofSource source).tokens, t.kind = .string →
      ∃ value : String, t.literal = some (.string value) ∧
        TokenStream.ofSource (Lexer.literalOf quote value) =
          ⟨[⟨.string, t.literal, Lexer.literalOf quote value, .start⟩], none⟩ := by
  have written (value : String) (noReturn : '\r' ∉ value.toList) :
      TokenStream.ofSource (Lexer.literalOf quote value) =
        ⟨[⟨.string, some (.string value), Lexer.literalOf quote value, .start⟩], none⟩ :=
    ofSource_lexeme (.literalOf isQuote noReturn false)
  refine ⟨written, fun source t member isString => ?_⟩
  have sequence := Lexer.collect_sequence ((Lexer.State.ofSource source).rest.length + 1) (.ofSource source)
  obtain ⟨_, lexeme⟩ := sequence.lexeme t member
  rw [isString] at lexeme
  obtain ⟨value, literal, noReturn⟩ := lexeme.string_value
  exact ⟨value, literal, literal ▸ written value noReturn⟩

/-- Both parts at work: a text with a line feed, a backslash and both quotes, and a string whose escape the lexer does
not know. -/
theorem unknownEscape_round_trip :
    Lexer.IsQuote '\'' ∧ '\r' ∉ "it's\n\\\"".toList ∧
    Lexer.literalOf '\'' "it's\n\\\"" = "'it\\'s\\n\\\\\"'" ∧
    TokenStream.ofSource (Lexer.literalOf '\'' "it's\n\\\"") =
      ⟨[⟨.string, some (.string "it's\n\\\""), Lexer.literalOf '\'' "it's\n\\\"", .start⟩], none⟩ ∧
    ⟨.string, some (.string "\\t'"), "\"\\t'\"", ⟨1, 5⟩⟩ ∈ (TokenStream.ofSource "x = \"\\t'\";").tokens ∧
    Lexer.literalOf '\'' "\\t'" = "'\\\\t\\''" ∧
    TokenStream.ofSource (Lexer.literalOf '\'' "\\t'") =
      ⟨[⟨.string, some (.string "\\t'"), Lexer.literalOf '\'' "\\t'", .start⟩], none⟩ := by
  have single : Lexer.IsQuote '\'' := .inr rfl
  have member : ⟨.string, some (.string "\\t'"), "\"\\t'\"", ⟨1, 5⟩⟩ ∈
      (TokenStream.ofSource "x = \"\\t'\";").tokens := List.mem_of_getElem? (i := 2) rfl
  refine ⟨single, by decide, by decide, (literals_round_trip single).1 _ (by decide), member, by decide, ?_⟩
  obtain ⟨_, same, read⟩ := (literals_round_trip single).2 _ _ member rfl
  obtain rfl := Literal.string.inj (Option.some.inj same)
  exact read

end TokenStream

end ScriptEngine
