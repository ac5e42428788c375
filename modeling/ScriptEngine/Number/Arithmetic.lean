import ScriptEngine.Number.Binary64

/-! # Arithmetic of script numbers

The operations that the floating-point unit does not settle by itself: the exact remainder, which takes
the sign of the dividend, and the smaller and larger of two numbers, which pass over NaN.
-/

namespace ScriptEngine.Number

/-- The remainder of `x` by `y`: exact, smaller than `y` in magnitude and with the sign of `x`. -/
def remainder (x y : Float) : Float :=
  match parts x, parts y with
  | .finite negative m e, .finite _ n f =>
    if n = 0 then 0.0 / 0.0
    else
      let low := min e f
      let r := (m * Nat.pow 2 (e - low).toNat) % (n * Nat.pow 2 (f - low).toNat)
      let (num, den) := scaled r 1 (-low)
      ofRatio negative num den
  | .finite .., .infinite _ => x
  | _, _ => 0.0 / 0.0

/-- The smaller of two numbers: the second of two equal ones, which matters for the two zeros, and the other
one of NaN. -/
def smaller (x y : Float) : Float :=
  if x.isNaN then y else if y.isNaN || x < y then x else y

/-- The larger of two numbers: the second of two equal ones, which matters for the two zeros, and the other
one of NaN. -/
def larger (x y : Float) : Float :=
  if x.isNaN then y else if y.isNaN || x > y then x else y

end ScriptEngine.Number
