import ScriptEngine.Text.Case
import ScriptEngine.Text.PrintableTable

/-! # Quoted text

How a string constant is shown in listings and inspection output: between double quotes, with the usual
short escapes, and with `\u` and the hexadecimal code point in braces for a character that does not show
on its own.
-/

namespace ScriptEngine.Text

/-- Whether a character is written as itself. Those that extend the cluster before them would change
its look, so they are escaped with the unprintable ones. -/
def showsPlainly (c : Char) : Bool :=
  let n := c.toNat
  if n < 0x7F then 0x20 ≤ n
  else !inRanges extenderRanges n && !inRanges unprintableRanges n

/-- Lower-case hexadecimal digits without leading zeros. -/
def hexDigits (n : Nat) : List Char := Nat.toDigits 16 n

/-- The characters that stand for `c` between double quotes. -/
def quoteChar (c : Char) : List Char :=
  match c with
  | '\x00' => ['\\', '0']
  | '\t' => ['\\', 't']
  | '\r' => ['\\', 'r']
  | '\n' => ['\\', 'n']
  | '"' => ['\\', '"']
  | '\\' => ['\\', '\\']
  | c => if showsPlainly c then [c] else ['\\', 'u', '\x7b'] ++ hexDigits c.toNat ++ ['\x7d']

/-- A string between double quotes. -/
def quoted (s : String) : String :=
  String.ofList ('"' :: s.toList.flatMap quoteChar ++ ['"'])

end ScriptEngine.Text
