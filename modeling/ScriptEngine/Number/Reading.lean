import ScriptEngine.Number.Binary64

/-! # Reading decimal numbers

The grammar of a number in text (an optional sign; digits with an optional point, at least one digit on
either side of it; an optional exponent; or the words for infinity and NaN), and the nearest
floating-point number of a decimal of any length.
-/

namespace ScriptEngine.Number

/-- The natural that a run of decimal digits spells. -/
def ofDigits (cs : List Char) : Nat :=
  cs.foldl (fun n c => 10 * n + (c.toNat - '0'.toNat)) 0

/-- The number nearest to `± coefficient · 10 ^ exponent`. Exponents far beyond the range of the format
are settled without computing the power. -/
def ofDecimal (negative : Bool) (coefficient : Nat) (exponent : Int) : Float :=
  if coefficient = 0 then ofMagnitude negative 0
  else
    let size := (coefficient.log2 : Int)
    if exponent > 400 then ofMagnitude negative infiniteMagnitude
    else if exponent < -400 - size then ofMagnitude negative 0
    else if exponent ≥ 0 then ofRatio negative (coefficient * Nat.pow 10 exponent.toNat) 1
    else ofRatio negative coefficient (Nat.pow 10 (-exponent).toNat)

/-- The exponent part of a number: nothing, or `e`, a sign and at least one digit to the end. -/
def readExponent? : List Char → Option Int
  | [] => some 0
  | mark :: rest =>
    if mark ≠ 'e' ∧ mark ≠ 'E' then none
    else
      let (negative, digits) := match rest with
        | '-' :: ds => (true, ds)
        | '+' :: ds => (false, ds)
        | ds => (false, ds)
      if digits = [] ∨ !digits.all Char.isDigit then none
      else some (if negative then -(ofDigits digits : Int) else ofDigits digits)

/-- An unsigned decimal to the end of the text. -/
def readDecimal? (negative : Bool) (cs : List Char) : Option Float :=
  let whole := cs.takeWhile Char.isDigit
  let rest := cs.dropWhile Char.isDigit
  let (fraction, tail) := match rest with
    | '.' :: more => (more.takeWhile Char.isDigit, more.dropWhile Char.isDigit)
    | more => ([], more)
  if whole = [] ∧ fraction = [] then none
  else
    (readExponent? tail).map fun e =>
      ofDecimal negative (ofDigits (whole ++ fraction)) (e - fraction.length)

/-- The number that a text spells, if it spells one. -/
def read? (cs : List Char) : Option Float :=
  let (negative, body) := match cs with
    | '-' :: rest => (true, rest)
    | '+' :: rest => (false, rest)
    | rest => (false, rest)
  let word := body.map Char.toLower
  if word = "inf".toList ∨ word = "infinity".toList then
    some (ofMagnitude negative infiniteMagnitude)
  else if word = "nan".toList then some (0.0 / 0.0)
  else readDecimal? negative body

end ScriptEngine.Number
