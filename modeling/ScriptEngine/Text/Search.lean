/-! # Searching in text

Leftmost occurrences of one text in another, counted in characters. An empty needle occurs at the start
of every text; splitting asks for a needle that is not empty.
-/

namespace ScriptEngine.Text

/-- The position of the leftmost occurrence of `needle`. -/
def indexOf? (needle : List Char) : List Char → Option Nat
  | [] => if needle = [] then some 0 else none
  | c :: rest =>
    if needle.isPrefixOf (c :: rest) then some 0 else (indexOf? needle rest).map (· + 1)

/-- Whether `needle` occurs in the text. -/
def occursIn (needle text : List Char) : Bool := (indexOf? needle text).isSome

/-- Splits at the leftmost occurrences of a separator that do not overlap: `skip` characters of the
occurrence in progress are still to be passed over, and `part` holds the current part backwards. -/
def splitFrom (separator : List Char) (skip : Nat) (part : List Char) : List Char → List (List Char)
  | [] => [part.reverse]
  | c :: rest =>
    match skip with
    | skip + 1 => splitFrom separator skip part rest
    | 0 =>
      if separator.isPrefixOf (c :: rest) then
        part.reverse :: splitFrom separator (separator.length - 1) [] rest
      else splitFrom separator 0 (c :: part) rest

/-- The parts of a text between the occurrences of a separator that is not empty. -/
def splitOn (separator text : List Char) : List (List Char) := splitFrom separator 0 [] text

example : indexOf? "ab".toList "xaab".toList = some 2 := by decide
example : splitOn "aa".toList "aaab".toList = ["".toList, "ab".toList] := by decide
example : splitOn ",".toList "".toList = ["".toList] := by decide

end ScriptEngine.Text
