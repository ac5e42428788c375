import ScriptEngine.Number.Binary64

/-! # Shortest decimal text

The decimal of fewest digits that reads back as a given number, and of those the nearest to it. The reals
that round to a number form an interval, whose ends belong to it exactly when the mantissa is even; of
each decimal grid only the two neighbours of the number can be its nearest point in that interval.
-/

namespace ScriptEngine.Number

/-- The decimal `coefficient · 10 ^ exponent`. -/
structure Decimal where
  coefficient : Nat
  exponent : Int
deriving DecidableEq, Repr

/-- The number of decimal digits of a natural. -/
def digitCount (n : Nat) : Nat := (Nat.toDigits 10 n).length

/-- The `k` with `10 ^ (k - 1) ≤ num / den < 10 ^ k`, for positive arguments. -/
def decimalExponent (num den : Nat) : Int :=
  if den ≤ num then digitCount (num / den)
  else
    let d := digitCount (den / num)
    1 - (d : Int) + if num * Nat.pow 10 (d - 1) = den then 1 else 0

/-- A positive number over one denominator with the ends of the interval that rounds to it. -/
structure Interval where
  low : Nat
  value : Nat
  high : Nat
  den : Nat
  closed : Bool

/-- The interval of `mantissa · 2 ^ exponent`. Below a power of two the numbers lie twice as dense. -/
def Interval.of (mantissa : Nat) (exponent : Int) : Interval :=
  let down := if mantissa = implicitBit then 1 else 2
  let scale := fun n : Nat => if exponent ≥ 2 then n * Nat.pow 2 (exponent - 2).toNat else n
  { low := scale (4 * mantissa - down)
    value := scale (4 * mantissa)
    high := scale (4 * mantissa + 2)
    den := if exponent ≥ 2 then 1 else Nat.pow 2 (2 - exponent).toNat
    closed := mantissa % 2 = 0 }

/-- The point of the grid of `10 ^ exponent` that is nearest to the number and rounds to it, if any does;
of two equally near the upper one. -/
def Interval.onGrid? (i : Interval) (exponent : Int) : Option Decimal :=
  let up := Nat.pow 10 exponent.toNat
  let down := Nat.pow 10 (-exponent).toNat
  let unit := i.den * up
  let value := i.value * down
  let a := value / unit
  let below := if i.closed then i.low * down ≤ a * unit else i.low * down < a * unit
  let above := if i.closed then (a + 1) * unit ≤ i.high * down else (a + 1) * unit < i.high * down
  if above ∧ (¬ below ∨ 2 * (value % unit) ≥ unit) then some ⟨a + 1, exponent⟩
  else if below then some ⟨a, exponent⟩
  else none

/-- The same decimal without trailing zeros in its coefficient; `fuel` bounds the number of them. -/
def Decimal.strip : Nat → Decimal → Decimal
  | 0, d => d
  | fuel + 1, d =>
    if d.coefficient ≠ 0 ∧ d.coefficient % 10 = 0 then strip fuel ⟨d.coefficient / 10, d.exponent + 1⟩
    else d

/-- The shortest decimal of the positive number `mantissa · 2 ^ exponent`. Seventeen digits always
suffice. -/
def shortest (mantissa : Nat) (exponent : Int) : Decimal :=
  let i := Interval.of mantissa exponent
  let e := decimalExponent i.value i.den
  let found := (List.range 17).findSome? fun k => i.onGrid? (e - (k + 1 : Nat))
  (found.getD ⟨0, 0⟩).strip 20

/-- A decimal in positional notation: no exponent, no point after an integer. -/
def Decimal.positional (d : Decimal) : String :=
  let digits := Nat.toDigits 10 d.coefficient
  if d.exponent ≥ 0 then String.ofList (digits ++ List.replicate d.exponent.toNat '0')
  else
    let places := (-d.exponent).toNat
    let padded := List.replicate (places + 1 - digits.length) '0' ++ digits
    let whole := padded.take (padded.length - places)
    String.ofList (whole ++ '.' :: padded.drop (padded.length - places))

/-- The text of a number: the shortest decimal that reads back, in positional notation. -/
def text (x : Float) : String :=
  match parts x with
  | .nan => "NaN"
  | .infinite negative => if negative then "-inf" else "inf"
  | .finite negative m e =>
    let magnitude := if m = 0 then "0" else (shortest m e).positional
    if negative then "-" ++ magnitude else magnitude

/-- The text of a number as scripts print it: an integer of magnitude below `10 ^ 15` as an integer, so
that negative zero is `0`, and anything else as its shortest decimal. -/
def plainText (x : Float) : String :=
  match toInt? x with
  | some n => if n.natAbs < 1000000000000000 then toString n else text x
  | none => text x

end ScriptEngine.Number
