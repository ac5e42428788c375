import ScriptEngine.Method
import ScriptEngine.Proofs.Counting

/-! # Positions as numbers

Sizes and positions are numbers to a script, and numbers are indices where one is asked for. Below two to the
thirty-first both ways agree, sums of positions are exact, and -1, which stands for no position, is none.
-/

namespace ScriptEngine

namespace Number

/-- Which integer a number is hangs on its bits alone. -/
theorem toInt?_congr {x y : Float} (same : x.toBits = y.toBits) : toInt? x = toInt? y := by
  simp only [toInt?, parts, same]

theorem toBits_neg_one : (-1 : Float).toBits = 0xBFF0000000000000 := by decide

theorem toInt?_neg_one : toInt? (-1) = some (-1) := by
  have whole : parts (-1) = .finite true implicitBit (-52) := by
    unfold parts
    rw [toBits_neg_one]
    decide
  unfold toInt?
  rw [whole]
  decide

/-- The number that stands for no position is equal to no position. -/
theorem equal_neg_one {i : Nat} (small : i < 2 ^ 53) : equal (ofInt i) (-1) = false := by
  have differ : (ofInt i).toBits ≠ (-1 : Float).toBits := by
    intro same
    have whole := toInt?_congr same
    rw [toInt?_ofInt small, toInt?_neg_one] at whole
    cases whole
  have notZero : isZero (-1) = false := by
    unfold isZero magnitude
    rw [toBits_neg_one]
    decide
  simp [equal, differ, notZero]

theorem equal_neg_one_self : equal (-1) (-1) = true := by
  have number : isNaN (-1) = false := by
    unfold isNaN magnitude
    rw [toBits_neg_one]
    decide
  simp [equal, number]

end Number

/-- The value is a natural number where an index is asked for. -/
def Value.Denotes (v : Value) (n : Nat) : Prop := v.asInteger? 32 = some (n : Int)

namespace Value.Denotes

variable {v : Value} {i j : Nat}

theorem sizeValue (small : i < 2 ^ 31) : (Method.sizeValue i).Denotes i := by
  have fits : (-Int.ofNat (Nat.pow 2 (32 - 1)) ≤ (i : Int) && (i : Int) < Int.ofNat (Nat.pow 2 (32 - 1))) = true := by
    simp
    omega
  rw [Denotes, Method.sizeValue, Value.asInteger?, Number.toInt?_ofInt (by omega)]
  simpa using fits

theorem unique (left : v.Denotes i) (right : v.Denotes j) : i = j :=
  Int.ofNat.inj (Option.some.inj (left.symm.trans right))

theorem not_neg_one : ¬(Value.number (-1)).Denotes i := by
  intro denotes
  rw [Denotes, asInteger?, Number.toInt?_neg_one] at denotes
  obtain ⟨same, -⟩ := Option.filter_eq_some_iff.mp denotes
  have := Option.some.inj same
  omega

end Value.Denotes

/-- An index is an integer that counts up to a position. -/
theorem Store.index_eq (s : Store) {v : Value} {z : Int} (whole : v.asInteger? 32 = some z) (length : Nat) :
    s.index v length = if z < 0 ∨ z ≥ length then .error (.indexOutOfBounds z length) else .ok z.toNat := by
  cases v with
  | number n =>
    unfold Store.index
    simp only [whole]
  | _ => cases whole

theorem Value.Denotes.index {v : Value} {i : Nat} (denotes : v.Denotes i) (s : Store) {length : Nat}
    (inside : i < length) : s.index v length = .ok i := by
  rw [s.index_eq denotes, if_neg (by omega), Int.toNat_natCast]

/-- Adding positions is exact. -/
theorem Method.sizeValue_add {rules : ObjectRules} {s : Store} {i j : Nat} (small : i + j < 2 ^ 53) :
    call rules (sizeValue i) "__add__" (.positional [sizeValue j]) s = .ok (sizeValue (i + j)) s := by
  rw [sizeValue, sizeValue, sizeValue, ← Number.ofInt_add small]
  rfl

end ScriptEngine
