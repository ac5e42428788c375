/-! # Binary floating-point numbers as exact values

A number is a sign, a natural mantissa and a power of two, or one of the special values. Reading a number
apart and putting one together are exact on this form: `ofRatio` rounds a quotient of naturals to the
nearest number, a tie going to the even mantissa. Everything that must be exact to the last bit (decimal
text in either direction, remainders) is computed here in natural numbers.
-/

namespace ScriptEngine.Number

/-- What a floating-point number is: `finite` stands for `± mantissa · 2 ^ exponent`. -/
inductive Parts where
  | nan
  | infinite (negative : Bool)
  | finite (negative : Bool) (mantissa : Nat) (exponent : Int)
deriving DecidableEq, Repr

/-- The sign bit of the 64. -/
def signBit : Nat := 9223372036854775808

/-- The mantissa bit that is not stored: two to the fifty-second. -/
def implicitBit : Nat := 4503599627370496

/-- The exact value of a number. -/
def parts (x : Float) : Parts :=
  let bits : Nat := x.toBits.toNat
  let negative : Bool := signBit ≤ bits
  let field : Nat := bits / implicitBit % 2048
  let fraction : Nat := bits % implicitBit
  if field = 2047 then if fraction = 0 then .infinite negative else .nan
  else if field = 0 then .finite negative fraction (-1074)
  else .finite negative (implicitBit + fraction) ((field : Int) - 1075)

/-- The number with a sign and the magnitude that the lower 63 bits spell. -/
def ofMagnitude (negative : Bool) (magnitude : Nat) : Float :=
  Float.ofBits (UInt64.ofNat (magnitude + if negative then signBit else 0))

/-- The bits of positive infinity; every larger magnitude overflows to it. -/
def infiniteMagnitude : Nat := 2047 * implicitBit

/-- The lower 63 bits of a number: all but its sign. -/
def magnitude (x : Float) : Nat := x.toBits.toNat % signBit

/-- Whether a number is zero, with either sign. -/
def isZero (x : Float) : Bool := magnitude x = 0

/-- Whether a number is none. -/
def isNaN (x : Float) : Bool := infiniteMagnitude < magnitude x

/-- Equality of numbers: the two zeros are equal, and NaN is equal to nothing. -/
def equal (x y : Float) : Bool := !isNaN x && !isNaN y && (x.toBits == y.toBits || isZero x && isZero y)

/-- The integer nearest to a quotient, the even one of two equally near. -/
def roundDiv (num den : Nat) : Nat :=
  let q := num / den
  let r := num % den
  if 2 * r > den ∨ (2 * r = den ∧ q % 2 = 1) then q + 1 else q

/-- The quotient `num / den · 2 ^ (-e)` as a numerator and a denominator. -/
def scaled (num den : Nat) (e : Int) : Nat × Nat :=
  if e ≥ 0 then (num, den * Nat.pow 2 e.toNat) else (num * Nat.pow 2 (-e).toNat, den)

/-- The largest `k` with `2 ^ k ≤ num / den`, for positive arguments. -/
def binaryExponent (num den : Nat) : Int :=
  let k : Int := (num.log2 : Int) - (den.log2 : Int)
  let (n, d) := scaled num den k
  if n < d then k - 1 else k

/-- The number nearest to `± num / den`. A mantissa rounded up to the next power of two carries into the
exponent field, so the magnitude is one sum. -/
def ofRatio (negative : Bool) (num den : Nat) : Float :=
  if num = 0 then ofMagnitude negative 0
  else
    let e := max (binaryExponent num den - 52) (-1074)
    let (n, d) := scaled num den e
    ofMagnitude negative (min ((e + 1074).toNat * implicitBit + roundDiv n d) infiniteMagnitude)

/-- The number nearest to an integer. -/
def ofInt (n : Int) : Float := ofRatio (n < 0) n.natAbs 1

/-- The integer that a number is, if it is one. -/
def toInt? (x : Float) : Option Int :=
  match parts x with
  | .finite negative m e =>
    let magnitude : Option Nat :=
      if e ≥ 0 then some (m * Nat.pow 2 e.toNat)
      else if m % Nat.pow 2 (-e).toNat = 0 then some (m / Nat.pow 2 (-e).toNat)
      else none
    magnitude.map fun n => if negative then -(n : Int) else n
  | _ => none

/-- Whether a number is an integer. -/
def isIntegral (x : Float) : Bool := (toInt? x).isSome

/-- The integer part of a number, toward zero; special values have none. -/
def truncate? (x : Float) : Option Int :=
  match parts x with
  | .finite negative m e =>
    let n := if e ≥ 0 then m * Nat.pow 2 e.toNat else m / Nat.pow 2 (-e).toNat
    some (if negative then -(n : Int) else n)
  | _ => none

end ScriptEngine.Number
