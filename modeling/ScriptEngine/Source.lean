import ScriptEngine.Text.Search

/-! # Positions in a source text

Lines and columns count from one, columns in characters. A line ends at a line feed, at a carriage return
and line feed together, or at a carriage return alone. The lexer finds the lines one character at a time; the
snippet of an error cuts the text at line feeds first and then at carriage returns.
-/

namespace ScriptEngine

/-- A place in a source text. -/
structure Position where
  line : Nat
  column : Nat
deriving DecidableEq, Repr, Inhabited

namespace Position

/-- The place of the first character. -/
def start : Position := ⟨1, 1⟩

/-- The first column of a line. -/
def ofLine (line : Nat) : Position := ⟨line, 1⟩

/-- The place `n` columns further on the same line. -/
def right (p : Position) (n : Nat) : Position := ⟨p.line, p.column + n⟩

/-- The place after the character `c`, which `rest` follows. -/
def after (p : Position) (c : Char) (rest : List Char) : Position :=
  if c = '\n' ∨ (c = '\r' ∧ rest.head? ≠ some '\n') then ⟨p.line + 1, 1⟩ else p.right 1

end Position

/-- The lines from the first to the last token of a statement. -/
structure Lines where
  first : Nat
  last : Nat
deriving DecidableEq, Repr, Inhabited

/-- Whether a line is one of those lines. -/
def Lines.covers (l : Lines) (line : Nat) : Bool := l.first ≤ line && line ≤ l.last

/-- Whether a character ends a line, alone or with the next one. -/
def isLineBreak (c : Char) : Bool := c == '\n' || c == '\r'

/-- A text without the carriage return that it ends in, if it ends in one. -/
def stripReturn (cs : List Char) : List Char := if cs.getLast? = some '\r' then cs.dropLast else cs

/-- The lines of a text, cut at line feeds, with a carriage return before each, and then at the carriage returns
that are left. A carriage return at the end of the text opens no line. -/
def cutLines (cs : List Char) : List (List Char) :=
  (Text.splitOn ['\n'] cs).flatMap fun piece => Text.splitOn ['\r'] (stripReturn piece)

/-- A line of the source and below it a caret under one of its columns. A line that does not exist shows
as an empty one. -/
def snippet (source : String) (p : Position) : String :=
  let line := (cutLines source.toList).getD (p.line - 1) []
  String.ofList (line ++ '\n' :: List.replicate (p.column - 1) ' ' ++ ['^'])

example : snippet "a = 1;\r\nb = 2;\r\n" ⟨2, 1⟩ = "b = 2;\n^" := by decide
example : snippet "a;" ⟨9, 3⟩ = "\n  ^" := by decide

end ScriptEngine
