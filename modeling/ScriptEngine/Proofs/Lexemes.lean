import ScriptEngine.Proofs.Fillers
import Mathlib.Data.List.TakeDrop

/-! # Lexemes

What a token can be, apart from where it stands: its text with its kind and its constant. The lexer reads a
lexeme wherever it finds one, and it finds the same one again before every character that can part two
tokens.
-/

namespace ScriptEngine

namespace Lexer

theorem eq_of_span {p : Char → Bool} {cs text rest : List Char} (same : cs.span p = (text, rest)) :
    cs = text ++ rest ∧ ∀ c ∈ text, p c = true := by
  rw [List.span_eq_takeWhile_dropWhile] at same
  obtain ⟨rfl, rfl⟩ := Prod.mk.inj same
  exact ⟨List.takeWhile_append_dropWhile.symm, fun _ => List.all_eq_true.mp List.all_takeWhile _⟩

theorem span_append {p : Char → Bool} {text rest : List Char} (run : ∀ c ∈ text, p c = true)
    (ends : ∀ c ∈ rest.head?, p c = false) : (text ++ rest).span p = (text, rest) := by
  rw [List.span_eq_takeWhile_dropWhile, List.takeWhile_append_of_pos run,
    List.dropWhile_append_of_pos run]
  cases rest with
  | nil => simp
  | cons c rest => simp [ends c rfl]

/-- At least one digit. -/
def IsDigits (text : List Char) : Prop := text ≠ [] ∧ ∀ c ∈ text, c.isDigit = true

/-- At most one sign. -/
def IsSign (text : List Char) : Prop := text = [] ∨ text = ['+'] ∨ text = ['-']

/-- Nothing, or a point and digits. -/
def IsFraction (text : List Char) : Prop := text = [] ∨ ∃ digits, text = '.' :: digits ∧ IsDigits digits

/-- Nothing, or a mark, an optional sign and digits. -/
def IsExponent (text : List Char) : Prop :=
  text = [] ∨ ∃ mark signs digits, text = mark :: (signs ++ digits) ∧ (mark = 'e' ∨ mark = 'E') ∧
    IsSign signs ∧ IsDigits digits

/-- A decimal number without its sign. -/
def IsDecimal (text : List Char) : Prop :=
  ∃ digits places power, text = digits ++ (places ++ power) ∧ IsDigits digits ∧ IsFraction places ∧
    IsExponent power

/-- No number goes on with this character. -/
def EndsNumber (c : Char) : Prop :=
  c.isDigit = false ∧ c ≠ '.' ∧ c ≠ 'e' ∧ c ≠ 'E'

/-- A decimal begins with a digit. -/
theorem IsDecimal.begins {text : List Char} (isDecimal : IsDecimal text) :
    ∃ c cs, text = c :: cs ∧ c.isDigit = true := by
  obtain ⟨digits, places, power, rfl, ⟨some, run⟩, -⟩ := isDecimal
  obtain ⟨c, digits, rfl⟩ := List.exists_cons_of_ne_nil some
  exact ⟨c, _, rfl, run c List.mem_cons_self⟩

theorem eq_of_sign {cs signs rest : List Char} (read : sign cs = (signs, rest)) :
    cs = signs ++ rest ∧ IsSign signs := by
  revert read
  fun_cases sign cs <;> rintro ⟨⟩ <;> simp [IsSign]

theorem eq_of_fraction {cs places rest : List Char} (read : fraction cs = (places, rest)) :
    cs = places ++ rest ∧ IsFraction places := by
  revert read
  fun_cases fraction cs with
  | case1 => rintro ⟨⟩; exact ⟨rfl, .inl rfl⟩
  | case2 more digits rest some run =>
    rintro ⟨⟩
    obtain ⟨rfl, isRun⟩ := eq_of_span run
    exact ⟨rfl, .inr ⟨digits, rfl, some, isRun⟩⟩
  | case3 => rintro ⟨⟩; exact ⟨rfl, .inl rfl⟩

theorem eq_of_exponent {cs power rest : List Char} (read : exponent cs = (power, rest)) :
    cs = power ++ rest ∧ IsExponent power := by
  revert read
  fun_cases exponent cs with
  | case1 => rintro ⟨⟩; exact ⟨rfl, .inl rfl⟩
  | case2 => rintro ⟨⟩; exact ⟨rfl, .inl rfl⟩
  | case3 mark cs isMark signs more signed digits rest some run =>
    rintro ⟨⟩
    obtain ⟨rfl, isSign⟩ := eq_of_sign signed
    obtain ⟨rfl, isRun⟩ := eq_of_span run
    exact ⟨by simp, .inr ⟨mark, signs, digits, rfl, by simpa using isMark, isSign, some, isRun⟩⟩
  | case4 => rintro ⟨⟩; exact ⟨rfl, .inl rfl⟩

/-- A sign is read off before a digit. -/
theorem sign_append {signs : List Char} (isSign : IsSign signs) {digits : List Char}
    (isDigits : IsDigits digits) (rest : List Char) :
    sign (signs ++ (digits ++ rest)) = (signs, digits ++ rest) := by
  obtain ⟨some, run⟩ := isDigits
  cases digits with
  | nil => contradiction
  | cons c digits =>
    have digit : c.isDigit = true := run c List.mem_cons_self
    have notPlus : c ≠ '+' := by rintro rfl; contradiction
    have notMinus : c ≠ '-' := by rintro rfl; contradiction
    rcases isSign with rfl | rfl | rfl <;> simp [sign, notPlus, notMinus]

theorem fraction_append {places rest : List Char} (isFraction : IsFraction places)
    (ends : ∀ c ∈ rest.head?, c.isDigit = false ∧ c ≠ '.') :
    fraction (places ++ rest) = (places, rest) := by
  rcases isFraction with rfl | ⟨digits, rfl, some, run⟩
  · cases rest with
    | nil => simp [fraction]
    | cons c rest => simp [fraction, (ends c rfl).2]
  · rw [List.cons_append, fraction, span_append run fun c at' => (ends c at').1]
    cases digits with
    | nil => contradiction
    | cons => rfl

theorem exponent_append {power rest : List Char} (isExponent : IsExponent power)
    (ends : ∀ c ∈ rest.head?, EndsNumber c) : exponent (power ++ rest) = (power, rest) := by
  rcases isExponent with rfl | ⟨mark, signs, digits, rfl, isMark, isSign, isDigits⟩
  · cases rest with
    | nil => simp [exponent]
    | cons c rest => simp [exponent, (ends c rfl).2.2.1, (ends c rfl).2.2.2]
  · have marked : (mark == 'e' || mark == 'E') = true := by simpa using isMark
    rw [List.cons_append, List.append_assoc, exponent, marked]
    simp only [if_true, sign_append isSign isDigits,
      span_append isDigits.2 fun c at' => (ends c at').1]
    cases digits with
    | nil => exact absurd rfl isDigits.1
    | cons => simp

/-- What is read as a number is a decimal after a sign. -/
theorem eq_of_number {signs more text rest : List Char} {c : Char} (isSign : IsSign signs)
    (digit : c.isDigit = true) (read : number (signs ++ c :: more) = (text, rest)) :
    ∃ body, c :: more = body ++ rest ∧ text = signs ++ body ∧ IsDecimal body := by
  have isDigits : IsDigits [c] := ⟨nofun, by simpa using digit⟩
  have signed : sign (signs ++ c :: more) = (signs, c :: more) := sign_append isSign isDigits more
  rcases run : (c :: more).span Char.isDigit with ⟨digits, afterDigits⟩
  rcases fractional : fraction afterDigits with ⟨places, afterPlaces⟩
  rcases raised : exponent afterPlaces with ⟨power, afterPower⟩
  simp only [number, signed, run, fractional, raised] at read
  obtain ⟨rfl, rfl⟩ := Prod.mk.inj read
  obtain ⟨whole, isRun⟩ := eq_of_span run
  obtain ⟨rfl, isFraction⟩ := eq_of_fraction fractional
  obtain ⟨rfl, isExponent⟩ := eq_of_exponent raised
  have some : digits ≠ [] := by
    rintro rfl
    simp [List.span_eq_takeWhile_dropWhile, digit] at run
  exact ⟨digits ++ (places ++ power), by simp [whole], by simp,
    digits, places, power, rfl, ⟨some, isRun⟩, isFraction, isExponent⟩

theorem number_append {signs body rest : List Char} (isSign : IsSign signs) (isDecimal : IsDecimal body)
    (ends : ∀ c ∈ rest.head?, EndsNumber c) :
    number (signs ++ (body ++ rest)) = (signs ++ body, rest) := by
  obtain ⟨digits, places, power, rfl, isDigits, isFraction, isExponent⟩ := isDecimal
  have afterPlaces : ∀ c ∈ (power ++ rest).head?, c.isDigit = false ∧ c ≠ '.' := by
    rcases isExponent with rfl | ⟨mark, _, _, rfl, rfl | rfl, _⟩
    · exact fun c at' => ⟨(ends c at').1, (ends c at').2.1⟩
    · simp
    · simp
  have afterDigits : ∀ c ∈ (places ++ (power ++ rest)).head?, c.isDigit = false := by
    rcases isFraction with rfl | ⟨_, rfl, _⟩
    · exact fun c at' => (afterPlaces c at').1
    · simp
  simp only [number, List.append_assoc, sign_append isSign isDigits, span_append isDigits.2 afterDigits,
    fraction_append isFraction afterPlaces, exponent_append isExponent ends]

/-- What opens a string and what closes it. -/
def IsQuote (c : Char) : Prop := c = '"' ∨ c = '\''

/-- A string ends itself: what was read after its opening quote is read again before any other text. -/
theorem string?_eq {quote : Char} (isQuote : IsQuote quote) {cs text value rest : List Char}
    (read : string? quote cs = some (text, value, rest)) :
    cs = text ++ rest ∧ (∀ c ∈ text, isLineBreak c = false) ∧
      ∀ other, string? quote (text ++ other) = some (text, value, other) := by
  fun_induction string? quote cs generalizing text value with
  | case1 => contradiction
  | case2 => contradiction
  | case3 c cs inLine ih =>
    obtain ⟨⟨text, value, rest⟩, read, same⟩ := Option.map_eq_some_iff.mp read
    obtain ⟨rfl, rfl, rfl⟩ := same
    obtain ⟨rfl, inLines, again⟩ := ih read
    refine ⟨rfl, ?_, fun other => by simp [string?, inLine, again]⟩
    exact List.forall_mem_cons.mpr ⟨rfl, List.forall_mem_cons.mpr ⟨by simpa using inLine, inLines⟩⟩
  | case4 cs =>
    obtain ⟨rfl, rfl, rfl⟩ := read
    refine ⟨rfl, ?_, fun other => ?_⟩
    · rcases isQuote with rfl | rfl <;> simp [isLineBreak]
    · rcases isQuote with rfl | rfl <;> simp [string?]
  | case5 => contradiction
  | case6 c cs notEscape notQuote inLine ih =>
    -- a backslash has a character after it, or no string was read
    have notBackslash : c ≠ '\\' := by
      rintro rfl
      cases cs with
      | nil => simp [string?] at read
      | cons d more => exact notEscape d more rfl rfl
    obtain ⟨⟨text, value, rest⟩, read, same⟩ := Option.map_eq_some_iff.mp read
    obtain ⟨rfl, rfl, rfl⟩ := same
    obtain ⟨rfl, inLines, again⟩ := ih read
    refine ⟨rfl, List.forall_mem_cons.mpr ⟨by simpa using inLine, inLines⟩, fun other => ?_⟩
    simp [string?, notBackslash, notQuote, inLine, again]

theorem symbol?_eq {cs : List Char} {s : Symbol} (read : symbol? cs = some s) :
    cs = s.text.toList ++ cs.drop s.text.length := by
  revert read
  fun_cases symbol? cs <;> rintro ⟨⟩ <;> rfl

theorem symbol?_append (s : Symbol) {rest : List Char} (ends : ∀ c ∈ rest.head?, c ≠ '=') :
    symbol? (s.text.toList ++ rest) = some s := by
  cases rest with
  | nil => cases s <;> rfl
  | cons c rest =>
    have notEqual : c ≠ '=' := ends c rfl
    cases s <;> simp [Symbol.text, symbol?, notEqual]

/-- The character can part two tokens: it is blank or begins a comment. -/
def Parts (c : Char) : Prop := Text.isBlank c = true ∨ c = '/'

theorem toNat_of_isWordChar {c : Char} (word : isWordChar c = true) : 48 ≤ c.toNat ∧ c.toNat ≤ 122 := by
  delta isWordChar Char.isAlphanum Char.isAlpha Char.isUpper Char.isLower Char.isDigit at word
  simp only [Bool.or_eq_true, Bool.and_eq_true, decide_eq_true_eq, beq_iff_eq, ge_iff_le,
    UInt32.le_iff_toNat_le] at word
  rcases word with ((⟨low, high⟩ | ⟨low, high⟩) | ⟨low, high⟩) | rfl
  · exact ⟨Nat.le_trans (by decide) low, Nat.le_trans high (by decide)⟩
  · exact ⟨Nat.le_trans (by decide) low, Nat.le_trans high (by decide)⟩
  · exact ⟨Nat.le_trans (by decide) low, Nat.le_trans high (by decide)⟩
  · decide

theorem toNat_of_isBlank {c : Char} (blank : Text.isBlank c = true) :
    c.toNat ≤ 32 ∨ 127 ≤ c.toNat := by
  simp only [Text.isBlank, Bool.or_eq_true, Bool.and_eq_true, decide_eq_true_eq, beq_iff_eq] at blank
  omega

namespace Parts

variable {c : Char}

theorem toNat_cases (parts : Parts c) : c.toNat ≤ 32 ∨ c.toNat = 47 ∨ 127 ≤ c.toNat := by
  rcases parts with blank | rfl
  · rcases toNat_of_isBlank blank with low | high
    · exact .inl low
    · exact .inr (.inr high)
  · exact .inr (.inl rfl)

/-- It differs from every visible ASCII character but the slash. -/
theorem ne (parts : Parts c) {d : Char} (visible : 32 < d.toNat ∧ d.toNat < 127 ∧ d.toNat ≠ 47) :
    c ≠ d := by
  rintro rfl
  have := parts.toNat_cases
  omega

theorem not_wordChar (parts : Parts c) : isWordChar c = false := by
  by_contra word
  have inWord := toNat_of_isWordChar (by simpa using word)
  have := parts.toNat_cases
  omega

theorem endsNumber (parts : Parts c) : EndsNumber c := by
  have notWord := parts.not_wordChar
  simp only [isWordChar, Char.isAlphanum, Bool.or_eq_false_iff] at notWord
  exact ⟨notWord.1.2, parts.ne (by decide), parts.ne (by decide), parts.ne (by decide)⟩

end Parts

theorem toNat_of_isWordStart {c : Char} (starts : isWordStart c = true) : 65 ≤ c.toNat := by
  delta isWordStart Char.isAlpha Char.isUpper Char.isLower at starts
  simp only [Bool.or_eq_true, Bool.and_eq_true, decide_eq_true_eq, beq_iff_eq, ge_iff_le,
    UInt32.le_iff_toNat_le] at starts
  rcases starts with (⟨low, -⟩ | ⟨low, -⟩) | rfl
  · exact low
  · exact Nat.le_trans (by decide) low
  · decide

theorem inLine_of_visible {c : Char} (visible : 32 < c.toNat) : isLineBreak c = false := by
  by_contra isBreak
  simp only [isLineBreak, Bool.not_eq_false, Bool.or_eq_true, beq_iff_eq] at isBreak
  rcases isBreak with rfl | rfl <;> contradiction

theorem inLine_of_isWordChar {c : Char} (word : isWordChar c = true) : isLineBreak c = false := by
  have inWord := toNat_of_isWordChar word
  exact inLine_of_visible (by omega)

theorem IsSign.inLine {text : List Char} (isSign : IsSign text) : ∀ c ∈ text, isLineBreak c = false := by
  rcases isSign with rfl | rfl | rfl <;> simp [isLineBreak]

theorem IsDigits.inLine {text : List Char} (isDigits : IsDigits text) :
    ∀ c ∈ text, isLineBreak c = false := by
  intro c at'
  exact inLine_of_isWordChar (by simp [isWordChar, Char.isAlphanum, isDigits.2 c at'])

theorem IsDecimal.inLine {text : List Char} (isDecimal : IsDecimal text) :
    ∀ c ∈ text, isLineBreak c = false := by
  obtain ⟨digits, places, power, rfl, isDigits, isFraction, isExponent⟩ := isDecimal
  refine List.forall_mem_append.mpr ⟨isDigits.inLine, List.forall_mem_append.mpr ⟨?_, ?_⟩⟩
  · rcases isFraction with rfl | ⟨digits, rfl, isDigits⟩
    · exact nofun
    · exact List.forall_mem_cons.mpr ⟨rfl, isDigits.inLine⟩
  · rcases isExponent with rfl | ⟨mark, signs, digits, rfl, isMark, isSign, isDigits⟩
    · exact nofun
    · refine List.forall_mem_cons.mpr ⟨?_, List.forall_mem_append.mpr ⟨isSign.inLine, isDigits.inLine⟩⟩
      rcases isMark with rfl | rfl <;> rfl

/-- A text that is a token by itself, with its kind and its constant. After an operand a number has no sign. -/
inductive Lexeme (afterOperand : Bool) : List Char → TokenKind → Option Literal → Prop where
  | number {signs body : List Char} {n : Float} (isSign : IsSign signs)
      (unsigned : afterOperand = true → signs = []) (isDecimal : IsDecimal body)
      (value : Number.read? (signs ++ body) = some n) :
      Lexeme afterOperand (signs ++ body) .number (some (.number n))
  | keyword {c : Char} {word : List Char} {k : Keyword} (starts : isWordStart c = true)
      (run : ∀ d ∈ c :: word, isWordChar d = true) (spells : Keyword.ofWord? (c :: word) = some k) :
      Lexeme afterOperand (c :: word) (.keyword k) k.literal?
  | ident {c : Char} {word : List Char} (starts : isWordStart c = true)
      (run : ∀ d ∈ c :: word, isWordChar d = true) (free : Keyword.ofWord? (c :: word) = none) :
      Lexeme afterOperand (c :: word) .ident none
  | string {quote : Char} {body value : List Char} (isQuote : IsQuote quote)
      (reads : string? quote body = some (body, value, [])) :
      Lexeme afterOperand (quote :: body) .string (some (.string (String.ofList value)))
  | symbol (s : Symbol) : Lexeme afterOperand s.text.toList (.symbol s) none

namespace Lexeme

variable {afterOperand : Bool} {text : List Char} {kind : TokenKind} {literal : Option Literal}

theorem ne_nil (lexeme : Lexeme afterOperand text kind literal) : text ≠ [] := by
  cases lexeme with
  | number isSign unsigned isDecimal value =>
    obtain ⟨c, cs, rfl, -⟩ := isDecimal.begins
    simp
  | keyword => exact nofun
  | ident => exact nofun
  | string => exact nofun
  | symbol s => cases s <;> exact nofun

/-- No line ends within a lexeme. -/
theorem inLine (lexeme : Lexeme afterOperand text kind literal) : ∀ c ∈ text, isLineBreak c = false := by
  cases lexeme with
  | number isSign unsigned isDecimal value =>
    exact List.forall_mem_append.mpr ⟨isSign.inLine, isDecimal.inLine⟩
  | keyword starts run => exact fun c at' => inLine_of_isWordChar (run c at')
  | ident starts run => exact fun c at' => inLine_of_isWordChar (run c at')
  | string isQuote reads =>
    refine List.forall_mem_cons.mpr ⟨?_, (string?_eq isQuote reads).2.1⟩
    rcases isQuote with rfl | rfl <;> rfl
  | symbol s => cases s <;> simp [Symbol.text, isLineBreak]

end Lexeme

/-- The lexer expects a number exactly at a digit, or at a sign and a digit where no operand ended. -/
theorem number_begins {afterOperand : Bool} {c : Char} {cs : List Char} :
    (c.isDigit || ((c == '+' || c == '-') && !afterOperand && cs.head?.any Char.isDigit)) = true ↔
      ∃ signs d more, c :: cs = signs ++ d :: more ∧ IsSign signs ∧ (afterOperand = true → signs = []) ∧
        d.isDigit = true := by
  constructor
  · intro begins
    by_cases digit : c.isDigit = true
    · exact ⟨[], c, cs, rfl, .inl rfl, fun _ => rfl, digit⟩
    · simp only [digit, Bool.false_or, Bool.and_eq_true, Bool.or_eq_true, beq_iff_eq,
        Bool.not_eq_true'] at begins
      obtain ⟨⟨isSign, free⟩, next⟩ := begins
      cases cs with
      | nil => contradiction
      | cons d more =>
        refine ⟨[c], d, more, rfl, ?_, by simp [free], next⟩
        rcases isSign with rfl | rfl
        · exact .inr (.inl rfl)
        · exact .inr (.inr rfl)
  · rintro ⟨signs, d, more, same, isSign, unsigned, digit⟩
    rcases isSign with rfl | rfl | rfl
    · obtain ⟨rfl, rfl⟩ := List.cons.inj same
      simp [digit]
    all_goals
      obtain ⟨rfl, rfl⟩ := List.cons.inj same
      have free : afterOperand = false := by simpa using unsigned
      simp [free, digit]

/-- A number that is read is a lexeme. -/
theorem numberToken_ok {afterOperand : Bool} {p : Position} {c : Char} {signs more : List Char} {t : Token}
    {s : State} (isSign : IsSign signs) (unsigned : afterOperand = true → signs = [])
    (digit : c.isDigit = true) (read : numberToken p (signs ++ c :: more) = .ok (t, s)) :
    ∃ text rest kind literal, signs ++ c :: more = text ++ rest ∧ Lexeme afterOperand text kind literal ∧
      (t, s) = emit kind literal p text rest := by
  revert read
  fun_cases numberToken p (signs ++ c :: more) with
  | case1 text rest split tail n value noTail =>
    rintro ⟨⟩
    obtain ⟨body, whole, rfl, isDecimal⟩ := eq_of_number isSign digit split
    exact ⟨_, rest, _, _, by simp [whole], .number isSign unsigned isDecimal value, rfl⟩
  | case2 => exact nofun

theorem isWordChar_of_isWordStart {c : Char} (starts : isWordStart c = true) : isWordChar c = true := by
  simp only [isWordStart, isWordChar, Char.isAlphanum, Bool.or_eq_true] at starts ⊢
  exact starts.imp_left .inl

/-- A word that is read is a lexeme. -/
theorem wordToken_eq (afterOperand : Bool) (p : Position) {c : Char} (starts : isWordStart c = true)
    (cs : List Char) :
    ∃ text rest kind literal, c :: cs = text ++ rest ∧ Lexeme afterOperand text kind literal ∧
      wordToken p (c :: cs) = emit kind literal p text rest := by
  rcases split : (c :: cs).span isWordChar with ⟨text, rest⟩
  obtain ⟨whole, run⟩ := eq_of_span split
  obtain ⟨word, rfl⟩ : ∃ word, text = c :: word := by
    cases text with
    | nil => simp [List.span_eq_takeWhile_dropWhile, isWordChar_of_isWordStart starts] at split
    | cons d word => exact ⟨word, by rw [(List.cons.inj whole).1]⟩
  simp only [wordToken, split]
  cases spells : Keyword.ofWord? (c :: word) with
  | some k => exact ⟨_, rest, _, _, whole, .keyword starts run spells, rfl⟩
  | none => exact ⟨_, rest, _, _, whole, .ident starts run spells, rfl⟩

/-- A token that is read is a lexeme at the start of the text. -/
theorem token_ok {afterOperand : Bool} {p : Position} {c : Char} {cs : List Char} {t : Token} {s : State}
    (read : token afterOperand p c cs = .ok (t, s)) :
    ∃ text rest kind literal, c :: cs = text ++ rest ∧ Lexeme afterOperand text kind literal ∧
      (t, s) = emit kind literal p text rest := by
  revert read
  fun_cases token afterOperand p c cs with
  | case1 signed begins =>
    obtain ⟨signs, d, more, same, isSign, unsigned, digit⟩ := number_begins.mp begins
    rw [same]
    exact numberToken_ok isSign unsigned digit
  | case2 signed notNumber starts =>
    intro read
    rw [← Except.ok.inj read]
    exact wordToken_eq afterOperand p starts cs
  | case3 signed notNumber notWord isQuote text value rest read =>
    rintro ⟨⟩
    have isQuote : IsQuote c := by simpa [IsQuote] using isQuote
    obtain ⟨rfl, -, again⟩ := string?_eq isQuote read
    refine ⟨c :: text, rest, _, _, rfl, .string isQuote ?_, rfl⟩
    simpa using again []
  | case4 => exact nofun
  | case5 signed notNumber notWord notQuote symbol read =>
    rintro ⟨⟩
    exact ⟨symbol.text.toList, _, _, _, symbol?_eq read, .symbol symbol, rfl⟩
  | case6 => exact nofun

/-- How the text of a symbol begins. -/
theorem text_begins (s : Symbol) :
    ∃ c cs, s.text.toList = c :: cs ∧ c.isDigit = false ∧ isWordStart c = false ∧
      (c == '"' || c == '\'') = false ∧ ((c == '+' || c == '-') = true → cs = []) := by
  cases s <;> exact ⟨_, _, rfl, rfl, rfl, rfl, by decide⟩

theorem token_word {c : Char} (starts : isWordStart c = true) (afterOperand : Bool) (p : Position)
    (cs : List Char) : token afterOperand p c cs = .ok (wordToken p (c :: cs)) := by
  have notDigit : c.isDigit = false := by
    by_contra digit
    have high := toNat_of_isWordStart starts
    simp only [Bool.not_eq_false, Char.isDigit, Bool.and_eq_true, decide_eq_true_eq, ge_iff_le,
      UInt32.le_iff_toNat_le] at digit
    have low : c.toNat ≤ 57 := digit.2
    omega
  have notPlus : c ≠ '+' := by rintro rfl; contradiction
  have notMinus : c ≠ '-' := by rintro rfl; contradiction
  simp [token, notDigit, notPlus, notMinus, starts]

/-- A lexeme before a character that parts tokens is read as that token. -/
theorem Lexeme.token_eq {afterOperand : Bool} {text : List Char} {kind : TokenKind}
    {literal : Option Literal} (lexeme : Lexeme afterOperand text kind literal) {rest : List Char}
    (parts : ∀ c ∈ rest.head?, Parts c) (p : Position) :
    ∃ c cs, text ++ rest = c :: cs ∧ token afterOperand p c cs = .ok (emit kind literal p text rest) := by
  have wordEnds : ∀ c ∈ rest.head?, isWordChar c = false := fun c at' => (parts c at').not_wordChar
  cases lexeme with
  | @number signs body n isSign unsigned isDecimal value =>
    have read := number_append isSign isDecimal fun c at' => (parts c at').endsNumber
    obtain ⟨d, more, split, digit⟩ := isDecimal.begins
    obtain ⟨c, cs, same⟩ : ∃ c cs, signs ++ (body ++ rest) = c :: cs := by
      rcases isSign with rfl | rfl | rfl <;> simp [split]
    have begins := number_begins.mpr ⟨signs, d, more ++ rest, by rw [← same, split]; rfl, isSign,
      unsigned, digit⟩
    have noTail : rest.takeWhile isWordChar = [] := by
      cases rest with
      | nil => rfl
      | cons c rest => simp [wordEnds c rfl]
    refine ⟨c, cs, by simpa using same, ?_⟩
    simp only [token, begins, if_true, ← same, numberToken, read, noTail, value]
  | @keyword c word k starts run spells =>
    have split : (c :: (word ++ rest)).span isWordChar = (c :: word, rest) := span_append run wordEnds
    refine ⟨c, word ++ rest, rfl, ?_⟩
    simp only [token_word starts, wordToken, split, spells]
  | @ident c word starts run free =>
    have split : (c :: (word ++ rest)).span isWordChar = (c :: word, rest) := span_append run wordEnds
    refine ⟨c, word ++ rest, rfl, ?_⟩
    simp only [token_word starts, wordToken, split, free]
  | @string quote body value isQuote reads =>
    refine ⟨quote, body ++ rest, rfl, ?_⟩
    have again := (string?_eq isQuote reads).2.2 rest
    rcases isQuote with rfl | rfl <;> simp [token, isWordStart, again]
  | symbol s =>
    obtain ⟨c, cs, text, notDigit, notWord, notQuote, single⟩ := text_begins s
    refine ⟨c, cs ++ rest, by rw [text]; rfl, ?_⟩
    have read := symbol?_append s fun c at' => (parts c at').ne (d := '=') (by decide)
    have notSigned : ((c == '+' || c == '-') && !afterOperand && (cs ++ rest).head?.any Char.isDigit) =
        false := by
      by_contra signed
      simp only [Bool.not_eq_false, Bool.and_eq_true] at signed
      obtain rfl := single signed.1.1
      cases rest with
      | nil => simp at signed
      | cons d rest =>
        have notDigit := (parts d rfl).endsNumber.1
        simp [notDigit] at signed
    have after : (c :: (cs ++ rest)).drop s.text.length = rest := by
      rw [← List.cons_append, ← text, ← String.length_toList, List.drop_left]
    rw [text, List.cons_append] at read
    simp only [token, notDigit, notSigned, notWord, notQuote, read, after, Bool.or_self,
      Bool.false_eq_true, if_false]

theorem next_of_skip {s : State} {p : Position} {c : Char} {cs : List Char}
    (skipped : skip .blank s.position s.rest = .ok (p, c :: cs)) :
    next s = some <$> token s.afterOperand p c cs := by
  rw [next, skipped]
  rfl

theorem next_of_skip_nil {s : State} {p : Position} (skipped : skip .blank s.position s.rest = .ok (p, [])) :
    next s = .ok none := by
  rw [next, skipped]
  rfl

theorem next_of_skip_error {s : State} {fault : Fault}
    (skipped : skip .blank s.position s.rest = .error fault) : next s = .error fault := by
  rw [next, skipped]
  rfl

theorem next_some {s s' : State} {t : Token} (read : next s = .ok (some (t, s'))) :
    ∃ p c cs, skip .blank s.position s.rest = .ok (p, c :: cs) ∧
      token s.afterOperand p c cs = .ok (t, s') := by
  rcases skipped : skip .blank s.position s.rest with fault | ⟨p, _ | ⟨c, cs⟩⟩
  · cases read.symm.trans (next_of_skip_error skipped)
  · cases read.symm.trans (next_of_skip_nil skipped)
  · rw [next_of_skip skipped] at read
    cases here : token s.afterOperand p c cs <;> rw [here] at read <;> cases read
    exact ⟨p, c, cs, rfl, here⟩

theorem next_none {s : State} (read : next s = .ok none) :
    ∃ p, skip .blank s.position s.rest = .ok (p, []) := by
  rcases skipped : skip .blank s.position s.rest with fault | ⟨p, _ | ⟨c, cs⟩⟩
  · cases read.symm.trans (next_of_skip_error skipped)
  · exact ⟨p, rfl⟩
  · rw [next_of_skip skipped] at read
    cases here : token s.afterOperand p c cs <;> rw [here] at read <;> cases read

theorem next_error {s : State} {fault : Fault} (failed : next s = .error fault) :
    skip .blank s.position s.rest = .error fault ∨
      ∃ p c cs, skip .blank s.position s.rest = .ok (p, c :: cs) ∧
        token s.afterOperand p c cs = .error fault := by
  rcases skipped : skip .blank s.position s.rest with other | ⟨p, _ | ⟨c, cs⟩⟩
  · obtain rfl := Except.error.inj (failed.symm.trans (next_of_skip_error skipped))
    exact .inl rfl
  · cases failed.symm.trans (next_of_skip_nil skipped)
  · rw [next_of_skip skipped] at failed
    cases here : token s.afterOperand p c cs <;> rw [here] at failed <;> cases failed
    exact .inr ⟨p, c, cs, rfl, here⟩

/-- Each token takes something of the text. -/
theorem next_shorter {s s' : State} {t : Token} (read : next s = .ok (some (t, s'))) :
    s'.rest.length < s.rest.length := by
  obtain ⟨p, c, cs, skipped, read⟩ := next_some read
  obtain ⟨filler, split, -⟩ := skip_ok skipped
  obtain ⟨text, rest, kind, literal, same, lexeme, made⟩ := token_ok read
  obtain ⟨rfl, rfl⟩ := Prod.mk.inj made
  have some := List.length_pos_iff.mpr lexeme.ne_nil
  have lengths := congrArg List.length (split.trans (congrArg (filler ++ ·) same))
  simp only [List.length_append] at lengths
  change rest.length < s.rest.length
  omega

end Lexer

end ScriptEngine
