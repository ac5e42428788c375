/-! # Blank characters

The characters that separate tokens and surround a number read from a string: those with the Unicode
property White_Space. The class is wider than the set of line breaks, which the lexer counts on its own.
-/

namespace ScriptEngine.Text

/-- White_Space: the ASCII blanks, NEL, the no-break spaces and the general space separators. -/
def isBlank (c : Char) : Bool :=
  let n := c.toNat
  (9 ≤ n && n ≤ 13) || n == 0x20 || n == 0x85 || n == 0xA0 || n == 0x1680 ||
    (0x2000 ≤ n && n ≤ 0x200A) || n == 0x2028 || n == 0x2029 || n == 0x202F || n == 0x205F ||
    n == 0x3000

/-- The text without the blanks at either end. -/
def trimBlanks (cs : List Char) : List Char :=
  ((cs.dropWhile isBlank).reverse.dropWhile isBlank).reverse

example : isBlank ' ' ∧ isBlank '\t' ∧ isBlank '\u00A0' ∧ ¬ isBlank '\u200B' := by decide
example : trimBlanks " a b\t".toList = "a b".toList := by decide

end ScriptEngine.Text
