import ScriptEngine.Number.Reading
import ScriptEngine.SyntaxError
import ScriptEngine.Text.Blank
import ScriptEngine.Token

/-! # Lexing

Cuts a source text into tokens. Between tokens stand blanks and comments; a token is the longest one that
starts where it stands. A sign belongs to a number exactly when a digit follows and no operand ends before
it. The first fault ends the sequence, so a text yields some tokens and then perhaps one fault.
-/

namespace ScriptEngine

namespace Lexer

/-- What is being skipped between tokens; an open block comment remembers where it was opened. -/
inductive Gap where
  | blank
  | lineComment
  | blockComment (opened : Position)

/-- Skips blanks and comments up to the next token or the end. -/
def skip (gap : Gap) (p : Position) (cs : List Char) : Except Fault (Position × List Char) :=
  match gap, cs with
  | .blank, '/' :: '/' :: rest => skip .lineComment (p.right 2) rest
  | .blank, '/' :: '*' :: rest => skip (.blockComment p) (p.right 2) rest
  | .blank, c :: rest =>
    if Text.isBlank c then skip .blank (p.after c rest) rest else .ok (p, c :: rest)
  | .lineComment, c :: rest =>
    skip (if isLineBreak c then .blank else .lineComment) (p.after c rest) rest
  | .blockComment _, '*' :: '/' :: rest => skip .blank (p.right 2) rest
  | .blockComment opened, c :: rest => skip (.blockComment opened) (p.after c rest) rest
  | .blockComment opened, [] => .error ⟨opened, .unterminatedComment⟩
  | _, [] => .ok (p, [])

def isWordStart (c : Char) : Bool := c.isAlpha || c == '_'

def isWordChar (c : Char) : Bool := c.isAlphanum || c == '_'

/-- A sign at the start of a text, and the rest. -/
def sign : List Char → List Char × List Char
  | '+' :: rest => (['+'], rest)
  | '-' :: rest => (['-'], rest)
  | rest => ([], rest)

/-- A point with at least one digit after it, and the rest. -/
def fraction : List Char → List Char × List Char
  | '.' :: rest =>
    match rest.span Char.isDigit with
    | ([], _) => ([], '.' :: rest)
    | (digits, rest) => ('.' :: digits, rest)
  | rest => ([], rest)

/-- An exponent mark, an optional sign and at least one digit, and the rest. -/
def exponent : List Char → List Char × List Char
  | [] => ([], [])
  | mark :: rest =>
    if mark == 'e' || mark == 'E' then
      let (signs, more) := sign rest
      match more.span Char.isDigit with
      | ([], _) => ([], mark :: rest)
      | (digits, rest) => (mark :: signs ++ digits, rest)
    else ([], mark :: rest)

/-- The characters of a number, and the rest. -/
def number (cs : List Char) : List Char × List Char :=
  let (signs, cs) := sign cs
  let (digits, cs) := cs.span Char.isDigit
  let (places, cs) := fraction cs
  let (power, cs) := exponent cs
  (signs ++ digits ++ places ++ power, cs)

/-- What an escaped character stands for. An unknown escape keeps its backslash. -/
def unescape (c : Char) : List Char :=
  if c = 'n' then ['\n']
  else if c = '"' ∨ c = '\'' ∨ c = '\\' then [c]
  else ['\\', c]

/-- The text of a string after its opening quote up to and with the closing one, the characters it
stands for, and the rest. A string that meets a line break or the end first is none. -/
def string? (quote : Char) : List Char → Option (List Char × List Char × List Char)
  | [] => none
  | '\\' :: c :: rest =>
    if isLineBreak c then none
    else (string? quote rest).map fun (text, value, rest) =>
      ('\\' :: c :: text, unescape c ++ value, rest)
  | c :: rest =>
    if c = quote then some ([c], [], rest)
    else if isLineBreak c then none
    else (string? quote rest).map fun (text, value, rest) => (c :: text, c :: value, rest)

/-- The symbol at the start of a text, a longer one before a shorter. -/
def symbol? : List Char → Option Symbol
  | '=' :: '=' :: _ => some .equal
  | '!' :: '=' :: _ => some .notEqual
  | '<' :: '=' :: _ => some .atMost
  | '>' :: '=' :: _ => some .atLeast
  | '&' :: '&' :: _ => some .both
  | '|' :: '|' :: _ => some .either
  | '=' :: _ => some .assign
  | '!' :: _ => some .bang
  | '<' :: _ => some .less
  | '>' :: _ => some .greater
  | '+' :: _ => some .plus
  | '-' :: _ => some .minus
  | '*' :: _ => some .star
  | '/' :: _ => some .slash
  | '%' :: _ => some .percent
  | '(' :: _ => some .openParen
  | ')' :: _ => some .closeParen
  | '\x7b' :: _ => some .openBrace
  | '\x7d' :: _ => some .closeBrace
  | '[' :: _ => some .openBracket
  | ']' :: _ => some .closeBracket
  | ',' :: _ => some .comma
  | ';' :: _ => some .semicolon
  | ':' :: _ => some .colon
  | '.' :: _ => some .dot
  | _ => none

/-- What is left to read. -/
structure State where
  rest : List Char
  position : Position
  afterOperand : Bool

def State.ofSource (source : String) : State := ⟨source.toList, .start, false⟩

/-- A token read at `p` and the state after it. -/
def emit (kind : TokenKind) (literal : Option Literal) (p : Position) (text rest : List Char) :
    Token × State :=
  let token : Token := ⟨kind, literal, String.ofList text, p⟩
  (token, ⟨rest, p.right text.length, kind.endsOperand⟩)

/-- The number token at the start of `cs`. Letters or digits right after a number spoil it. -/
def numberToken (p : Position) (cs : List Char) : Except Fault (Token × State) :=
  let (text, rest) := number cs
  let tail := rest.takeWhile isWordChar
  match tail, Number.read? text with
  | [], some n => .ok (emit .number (some (.number n)) p text rest)
  | _, _ => .error ⟨p, .malformedNumber (String.ofList (text ++ tail))⟩

/-- The word at the start of `cs`: an identifier or a reserved word. -/
def wordToken (p : Position) (cs : List Char) : Token × State :=
  let (text, rest) := cs.span isWordChar
  match Keyword.ofWord? text with
  | some k => emit (.keyword k) k.literal? p text rest
  | none => emit .ident none p text rest

/-- The token at the start of `cs`, which stands at `p` and is not blank. -/
def token (afterOperand : Bool) (p : Position) (c : Char) (rest : List Char) :
    Except Fault (Token × State) :=
  let signed := (c == '+' || c == '-') && !afterOperand && rest.head?.any Char.isDigit
  if c.isDigit || signed then numberToken p (c :: rest)
  else if isWordStart c then .ok (wordToken p (c :: rest))
  else if c == '"' || c == '\'' then
    match string? c rest with
    | some (text, value, rest) =>
      .ok (emit .string (some (.string (String.ofList value))) p (c :: text) rest)
    | none => .error ⟨p, .unterminatedString⟩
  else match symbol? (c :: rest) with
    | some s => .ok (emit (.symbol s) none p s.text.toList ((c :: rest).drop s.text.length))
    | none => .error ⟨p, .unexpectedCharacter c⟩

/-- The next token and the state after it; none at the end of the text. -/
def next (s : State) : Except Fault (Option (Token × State)) := do
  let (p, cs) ← skip .blank s.position s.rest
  match cs with
  | [] => pure none
  | c :: rest => some <$> token s.afterOperand p c rest

/-- At most `fuel` tokens, and the fault that ended them if one did. -/
def collect : Nat → State → List Token × Option Fault
  | 0, _ => ([], none)
  | fuel + 1, s =>
    match next s with
    | .error fault => ([], some fault)
    | .ok none => ([], none)
    | .ok (some (t, s)) =>
      let (ts, fault) := collect fuel s
      (t :: ts, fault)

/-- Reads a text on demand, one token at a time; `failed` once a fault was handed out. -/
structure Reader where
  state : State
  failed : Bool

namespace Reader

def ofSource (source : String) : Reader := ⟨.ofSource source, false⟩

/-- Hands out the next token, or the fault in its place, and the reader after it. At the end of the text and
after a fault nothing is handed out. -/
def pull (r : Reader) : Option (Except Fault Token) × Reader :=
  if r.failed then (none, r)
  else match next r.state with
    | .error fault => (some (.error fault), { r with failed := true })
    | .ok none => (none, r)
    | .ok (some (t, state)) => (some (.ok t), { r with state })

end Reader

end Lexer

/-- The tokens of a source text up to its end or its first fault. -/
structure TokenStream where
  tokens : List Token
  failure : Option Fault

/-- Lexes a source text. Each token takes at least one character. -/
def TokenStream.ofSource (source : String) : TokenStream :=
  let s := Lexer.State.ofSource source
  let (tokens, failure) := Lexer.collect (s.rest.length + 1) s
  ⟨tokens, failure⟩

end ScriptEngine
