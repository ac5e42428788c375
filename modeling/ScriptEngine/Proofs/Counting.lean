import Mathlib.Algebra.Group.Nat.Defs
import ScriptEngine.Number.Arithmetic

/-! # Counting in floating-point numbers

Scripts count in floating-point numbers, and so do the loops that the compiler makes. Below two to the
fifty-third a natural number is one of them: it is shifted until its mantissa is full, and the exponent takes the shift
back. On these numbers comparison, addition and conversion are what they are on natural numbers.
-/

namespace ScriptEngine.Number

open Float.Model (Format UnpackedFloat totalExponent)
open Float.Model.UnpackedFloat

/-- A positive natural number shifted so that its leading bit is the one that is not stored. -/
def mantissa (i : Nat) : Nat := i * 2 ^ (52 - i.log2)

variable {i j : Nat}

theorem mantissa_bounds (positive : 0 < i) (small : i < 2 ^ 53) : 2 ^ 52 ≤ mantissa i ∧ mantissa i < 2 ^ 53 := by
  have exponent : i.log2 < 53 := (Nat.log2_lt (by omega)).mpr small
  have low := Nat.mul_le_mul_right (2 ^ (52 - i.log2)) (Nat.log2_self_le (Nat.ne_of_gt positive))
  have high := Nat.mul_lt_mul_of_pos_right (Nat.lt_log2_self (n := i)) (Nat.two_pow_pos (52 - i.log2))
  rw [← Nat.pow_add] at low high
  rw [show i.log2 + (52 - i.log2) = 52 by omega] at low
  rw [show i.log2 + 1 + (52 - i.log2) = 53 by omega] at high
  exact ⟨low, high⟩

theorem mantissa_pos (positive : 0 < i) : 0 < mantissa i := Nat.mul_pos positive (Nat.two_pow_pos _)

/-- The exact form of a positive natural number. -/
def unpacked (i : Nat) (positive : 0 < i) : UnpackedFloat :=
  .finite .positive (mantissa i) (i.log2 - 52) (mantissa_pos positive)

/-- The bits of a positive natural number. -/
def countBits (i : Nat) : Nat := (i.log2 + 1022) * implicitBit + mantissa i

theorem binaryExponent_one (positive : 0 < i) : binaryExponent i 1 = i.log2 := by
  have low := Nat.log2_self_le (Nat.ne_of_gt positive)
  have wide : scaled i 1 i.log2 = (i, 2 ^ i.log2) := by simp [scaled]
  have one : Nat.log2 1 = 0 := by decide
  simp only [binaryExponent, one, Int.ofNat_zero, Int.sub_zero, wide]
  exact if_neg (Nat.not_lt.mpr low)

theorem scaled_one (positive : 0 < i) (small : i < 2 ^ 53) : scaled i 1 (i.log2 - 52) = (mantissa i, 1) := by
  have exponent : i.log2 < 53 := (Nat.log2_lt (by omega)).mpr small
  unfold scaled mantissa
  by_cases full : i.log2 = 52
  · simp [full]
  · rw [if_neg (by omega), show (-((i.log2 : Int) - 52)).toNat = 52 - i.log2 by omega]
    rfl

/-- The number that a positive natural number is turned into has its bits. -/
theorem ofInt_eq (positive : 0 < i) (small : i < 2 ^ 53) : ofInt i = .ofBits (.ofNat (countBits i)) := by
  have exponent : i.log2 < 53 := (Nat.log2_lt (by omega)).mpr small
  have bounds := mantissa_bounds positive small
  have lowest : max ((i.log2 : Int) - 52) (-1074) = i.log2 - 52 := by omega
  have exact : roundDiv (mantissa i) 1 = mantissa i := by
    simp [roundDiv, Nat.mod_one]
  have finite : countBits i ≤ infiniteMagnitude := by
    unfold countBits infiniteMagnitude implicitBit
    omega
  unfold ofInt ofRatio
  simp only [Int.natAbs_natCast, if_neg (Nat.ne_of_gt positive), binaryExponent_one positive, lowest,
    scaled_one positive small, exact]
  rw [show ((i.log2 : Int) - 52 + 1074).toNat = i.log2 + 1022 by omega,
    show (i.log2 + 1022) * implicitBit + mantissa i = countBits i from rfl, Nat.min_eq_left finite]
  have above : ¬ (i : Int) < 0 := by omega
  simp [ofMagnitude, above]

theorem toNat_countBits (positive : 0 < i) (small : i < 2 ^ 53) :
    (UInt64.ofNat (countBits i)).toNat = countBits i := by
  have exponent : i.log2 < 53 := (Nat.log2_lt (by omega)).mpr small
  have bounds := mantissa_bounds positive small
  refine UInt64.toNat_ofNat_of_lt' ?_
  simp only [countBits, implicitBit, UInt64.size]
  omega

section

variable (b : BitVec 64)

theorem toNat_field (start length : Nat) :
    (b.extractLsb' start length).toNat = b.toNat / 2 ^ start % 2 ^ length := by
  rw [BitVec.extractLsb'_toNat, Nat.shiftRight_eq_div_pow]

theorem toNat_unpackMantissa : (@unpackMantissa Format.binary64 b).toNat = b.toNat % 2 ^ 52 := by
  have field : (@unpackMantissa Format.binary64 b).toNat = b.toNat / 2 ^ 0 % 2 ^ 52 := toNat_field b 0 52
  rw [field, Nat.pow_zero, Nat.div_one]

theorem toNat_unpackExponent : (@unpackExponent Format.binary64 b).toNat = b.toNat / 2 ^ 52 % 2 ^ 11 :=
  toNat_field b 52 11

theorem toNat_unpackSign : (@unpackSign Format.binary64 b).toNat = b.toNat / 2 ^ 63 % 2 :=
  toNat_field b 63 1

end

theorem finite_eq {s s' : Sign} {m m' : Nat} {e e' : Int} {some : 0 < m} {some' : 0 < m'} (sign : s = s')
    (mantissa : m = m') (exponent : e = e') : UnpackedFloat.finite s m e some = .finite s' m' e' some' := by
  subst sign mantissa exponent
  rfl

/-- What the bits of a number say, sign, exponent and mantissa. -/
theorem unpack_countBits (positive : 0 < i) (small : i < 2 ^ 53) :
    unpack Format.binary64 (UInt64.ofNat (countBits i)).toBitVec = unpacked i positive := by
  have exponent : i.log2 < 53 := (Nat.log2_lt (by omega)).mpr small
  have bounds := mantissa_bounds positive small
  generalize whole : (UInt64.ofNat (countBits i)).toBitVec = b
  have bits : b.toNat = (i.log2 + 1022) * 2 ^ 52 + mantissa i := by
    rw [← whole]
    exact toNat_countBits positive small
  have mantissas := toNat_unpackMantissa b
  have exponents := toNat_unpackExponent b
  have signs := toNat_unpackSign b
  rw [bits] at mantissas exponents signs
  have field : (@unpackExponent Format.binary64 b).toNat = i.log2 + 1023 := by omega
  have fraction : (@unpackMantissa Format.binary64 b).toNat = mantissa i - 2 ^ 52 := by omega
  have unsigned : @unpackSign Format.binary64 b = 0#1 := by
    apply BitVec.eq_of_toNat_eq
    rw [signs, BitVec.toNat_ofNat]
    omega
  have finite : @unpackExponent Format.binary64 b ≠ -1#11 := by
    intro same
    rw [same] at field
    simp at field
    omega
  have normal : @unpackExponent Format.binary64 b ≠ 0#11 := by
    intro same
    rw [same] at field
    simp at field
  have full : (1#1 ++ @unpackMantissa Format.binary64 b).toNat = mantissa i := by
    rw [BitVec.toNat_append, ← Nat.shiftLeft_add_eq_or_of_lt (BitVec.isLt _), fraction]
    simp [Nat.shiftLeft_eq]
    omega
  have shift : ((i.log2 + 1023 : Nat) : Int) - ((Format.binary64.exponentBias : Nat) + (52 : Nat)) = i.log2 - 52 := by
    have bias : Format.binary64.exponentBias = 1023 := rfl
    omega
  delta unpack
  dsimp only
  rw [if_neg finite, if_neg normal]
  exact finite_eq (congrArg Sign.ofBitVec unsigned) full (by rw [field]; exact shift)

theorem log2_mantissa (positive : 0 < i) (small : i < 2 ^ 53) : (mantissa i).log2 = 52 :=
  (Nat.log2_eq_iff (Nat.ne_of_gt (mantissa_pos positive))).mpr (mantissa_bounds positive small)

theorem pack_unpacked (positive : 0 < i) (small : i < 2 ^ 53) :
    pack Format.binary64 (unpacked i positive) = (UInt64.ofNat (countBits i)).toBitVec := by
  have exponent : i.log2 < 53 := (Nat.log2_lt (by omega)).mpr small
  have bounds := mantissa_bounds positive small
  have field : ((i.log2 : Int) - 52 + (Format.binary64.exponentBias : Nat) + (52 : Nat)).toNat = i.log2 + 1023 := by
    have bias : Format.binary64.exponentBias = 1023 := rfl
    omega
  have finite : ¬ 2 ^ 11 ≤ i.log2 + 1023 + 1 := by omega
  have normal : 52 + 1 = Format.binary64.mantissaBits := rfl
  have bits : (UInt64.ofNat (countBits i)).toBitVec.toNat = (i.log2 + 1022) * 2 ^ 52 + mantissa i :=
    toNat_countBits positive small
  delta pack unpacked
  dsimp only
  rw [field, if_neg finite, log2_mantissa positive small, if_pos normal]
  apply BitVec.eq_of_toNat_eq
  rw [bits, packComponents, BitVec.toNat_append, BitVec.toNat_append,
    ← Nat.shiftLeft_add_eq_or_of_lt (BitVec.isLt _), ← Nat.shiftLeft_add_eq_or_of_lt (BitVec.isLt _)]
  simp only [Sign.toBitVec, BitVec.toNat_ofNat, Nat.shiftLeft_eq]
  omega

/-- What a natural number is as a number. -/
def counted (i : Nat) : UnpackedFloat := if positive : 0 < i then unpacked i positive else .zero .positive

/-- A natural number is turned into the number that has its exact form. -/
theorem ofInt_eq_counted (small : i < 2 ^ 53) : ofInt i = .ofModel (.pack (counted i)) := by
  unfold counted
  by_cases positive : 0 < i
  · rw [dif_pos positive, ofInt_eq positive small, Float.ofBits, Float.Model.ofBits, unpack_countBits positive small]
  · obtain rfl : i = 0 := by omega
    rfl

theorem toBits_ofModel (m : Float.Model) : (Float.ofModel m).toBits = m.toBits := rfl

theorem toBits_pack (u : UnpackedFloat) : (Float.Model.pack u).toBits.toBitVec = pack Format.binary64 u := rfl

theorem unpack_ofInt (small : i < 2 ^ 53) : (ofInt i).toModel.unpack = counted i := by
  rw [ofInt_eq_counted small, Float.Model.unpack, toBits_pack]
  unfold counted
  by_cases positive : 0 < i
  · rw [dif_pos positive, pack_unpacked positive small, unpack_countBits positive small]
  · obtain rfl : i = 0 := by omega
    rfl

theorem toBits_ofInt (positive : 0 < i) (small : i < 2 ^ 53) : (ofInt i).toBits.toNat = countBits i := by
  rw [ofInt_eq_counted small, toBits_ofModel, counted, dif_pos positive, ← UInt64.toNat_toBitVec, toBits_pack,
    pack_unpacked positive small]
  exact toNat_countBits positive small

theorem shiftRight_exact (m t : Nat) :
    (⟨m * 2 ^ t, false, false⟩ : ExtendedMantissa) >>> t = ⟨m, false, false⟩ := by
  induction t generalizing m with
  | zero => simp [HShiftRight.hShiftRight, Nat.repeat]
  | succ t ih =>
    have here := ih (m * 2)
    rw [Nat.mul_assoc, ← Nat.pow_succ'] at here
    change ExtendedMantissa.shiftRightOne ((⟨m * 2 ^ (t + 1), false, false⟩ : ExtendedMantissa) >>> t) = _
    rw [here]
    simp [ExtendedMantissa.shiftRightOne]

theorem targetExponent_eq (e : Int) : Format.binary64.targetExponent e = max (e - 53) (-1074) := rfl

theorem log2_mul_two_pow (positive : 0 < i) (t : Nat) : (i * 2 ^ t).log2 = i.log2 + t := by
  have low := Nat.mul_le_mul_right (2 ^ t) (Nat.log2_self_le (Nat.ne_of_gt positive))
  have high := Nat.mul_lt_mul_of_pos_right (Nat.lt_log2_self (n := i)) (Nat.two_pow_pos t)
  rw [← Nat.pow_add] at low high
  rw [Nat.add_right_comm] at high
  exact (Nat.log2_eq_iff (Nat.ne_of_gt (Nat.mul_pos positive (Nat.two_pow_pos t)))).mpr ⟨low, high⟩

/-- Bits that are zero are dropped without rounding. -/
theorem roundWithAccuracy_exact (positive : 0 < i) (small : i < 2 ^ 53) (t : Nat) :
    roundWithAccuracy Format.binary64 .positive (mantissa i * 2 ^ t) (i.log2 - 52 - t) .exact =
      unpacked i positive := by
  have shift (t : Nat) : shiftToTargetExponent Format.binary64 (mantissa i * 2 ^ t) (i.log2 - 52 - t) .exact =
      (⟨mantissa i, false, false⟩, (i.log2 : Int) - 52) := by
    have digits : (mantissa i * 2 ^ t).log2 = 52 + t := by
      rw [log2_mul_two_pow (mantissa_pos positive), log2_mantissa positive small]
    have amount : (Format.binary64.targetExponent (totalExponent (mantissa i * 2 ^ t) (i.log2 - 52 - t)) -
        ((i.log2 : Int) - 52 - t)).toNat = t := by
      rw [targetExponent_eq, totalExponent, digits]
      omega
    unfold shiftToTargetExponent shiftToExponent
    simp only [amount, ExtendedMantissa.ofMantissaAndAccuracy, shiftRight_exact]
    congr 1
    omega
  have again := shift 0
  simp only [Nat.pow_zero, Nat.mul_one, Int.ofNat_zero, Int.sub_zero] at again
  have rounded : (⟨mantissa i, false, false⟩ : ExtendedMantissa).roundedMantissa = mantissa i := rfl
  unfold roundWithAccuracy
  rw [shift]
  dsimp only
  rw [rounded, again]
  exact dif_neg (Nat.ne_of_gt (mantissa_pos positive))

/-- A natural number in another exact form is rounded to the full one. -/
theorem round_exact (positive : 0 < i) (small : i < 2 ^ 53) (k : Nat) :
    UnpackedFloat.round Format.binary64 .positive (i * 2 ^ k) (-k) = unpacked i positive := by
  have exponent : i.log2 < 53 := (Nat.log2_lt (by omega)).mpr small
  have target : Format.binary64.targetExponent (totalExponent (i * 2 ^ k) (-k)) = i.log2 - 52 := by
    rw [targetExponent_eq, totalExponent, log2_mul_two_pow positive]
    omega
  have shifted : (i * 2 ^ k) <<< (-(k : Int) - (i.log2 - 52)).toNat = mantissa i * 2 ^ (k - (52 - i.log2)) := by
    rw [Nat.shiftLeft_eq, mantissa, Nat.mul_assoc, Nat.mul_assoc, ← Nat.pow_add, ← Nat.pow_add]
    congr 2
    omega
  unfold UnpackedFloat.round decreaseExponent
  simp only [target, shifted]
  rw [← roundWithAccuracy_exact positive small (k - (52 - i.log2))]
  congr 1
  omega

/-- Adding natural numbers is exact. -/
theorem add_counted (small : i + j < 2 ^ 53) :
    UnpackedFloat.add Format.binary64 (counted i) (counted j) = counted (i + j) := by
  unfold counted
  by_cases left : 0 < i
  · by_cases right : 0 < j
    · have exponents : i.log2 < 53 ∧ j.log2 < 53 :=
        ⟨(Nat.log2_lt (by omega)).mpr (by omega), (Nat.log2_lt (by omega)).mpr (by omega)⟩
      have aligned {n : Nat} (bound : n.log2 < 53) (low : min i.log2 j.log2 ≤ n.log2) :
          mantissa n <<< ((n.log2 : Int) - 52 - min ((i.log2 : Int) - 52) (j.log2 - 52)).toNat =
            n * 2 ^ (52 - min i.log2 j.log2) := by
        rw [Nat.shiftLeft_eq, mantissa, Nat.mul_assoc, ← Nat.pow_add]
        congr 2
        omega
      rw [dif_pos left, dif_pos right, dif_pos (by omega : 0 < i + j)]
      change UnpackedFloat.normalize Format.binary64
        (((mantissa i <<< ((i.log2 : Int) - 52 - min ((i.log2 : Int) - 52) (j.log2 - 52)).toNat : Nat) : Int) +
          ((mantissa j <<< ((j.log2 : Int) - 52 - min ((i.log2 : Int) - 52) (j.log2 - 52)).toNat : Nat) : Int))
        (min ((i.log2 : Int) - 52) (j.log2 - 52)) .positive = _
      rw [aligned exponents.1 (Nat.min_le_left _ _), aligned exponents.2 (Nat.min_le_right _ _), ← Int.natCast_add,
        ← Nat.add_mul]
      have above : compare (((i + j) * 2 ^ (52 - min i.log2 j.log2) : Nat) : Int) 0 = .gt := by
        rw [Int.compare_eq_gt]
        have := Nat.mul_pos (show 0 < i + j by omega) (Nat.two_pow_pos (52 - min i.log2 j.log2))
        omega
      have scale : min ((i.log2 : Int) - 52) (j.log2 - 52) = -((52 - min i.log2 j.log2 : Nat) : Int) := by omega
      unfold UnpackedFloat.normalize
      simp only [above, Int.toNat_natCast, scale]
      exact round_exact (by omega) small _
    · obtain rfl : j = 0 := by omega
      rw [Nat.add_zero, dif_pos left]
      rfl
  · obtain rfl : i = 0 := by omega
    by_cases right : 0 < j
    · rw [Nat.zero_add, dif_pos right]
      rfl
    · obtain rfl : j = 0 := by omega
      rfl

theorem ofInt_add (small : i + j < 2 ^ 53) : ofInt i + ofInt j = ofInt ((i + j : Nat) : Int) := by
  have sum := add_counted small
  rw [ofInt_eq_counted small, ← sum, ← unpack_ofInt (i := i) (by omega), ← unpack_ofInt (i := j) (by omega)]
  rfl

/-- A smaller natural number has a smaller exponent, or the same and a smaller mantissa. -/
theorem mantissa_lt (positive : 0 < i) (less : i < j) :
    i.log2 < j.log2 ∨ i.log2 = j.log2 ∧ mantissa i < mantissa j := by
  have le : i.log2 ≤ j.log2 :=
    (Nat.le_log2 (by omega)).mpr (Nat.le_trans (Nat.log2_self_le (Nat.ne_of_gt positive)) (Nat.le_of_lt less))
  rcases Nat.lt_or_eq_of_le le with lower | same
  · exact .inl lower
  · refine .inr ⟨same, ?_⟩
    rw [mantissa, mantissa, same]
    exact Nat.mul_lt_mul_of_pos_right less (Nat.two_pow_pos _)

/-- The order of exponents, and then that of mantissas, is the order of natural numbers. -/
theorem compare_counted (i j : Nat) : (counted i).compare (counted j) = some (compare i j) := by
  have equal (e : Int) : compare e e = .eq := Int.compare_eq_eq.mpr rfl
  unfold counted
  by_cases one : 0 < i
  · by_cases other : 0 < j
    · rw [dif_pos one, dif_pos other]
      change some ((compare ((i.log2 : Int) - 52) (j.log2 - 52)).then (compare (mantissa i) (mantissa j))) = _
      congr 1
      rcases Nat.lt_trichotomy i j with less | rfl | more
      · rw [Nat.compare_eq_lt.mpr less]
        rcases mantissa_lt one less with lower | ⟨same, lower⟩
        · rw [Int.compare_eq_lt.mpr (by omega)]
          rfl
        · rw [same, equal, Nat.compare_eq_lt.mpr lower]
          rfl
      · rw [equal, Nat.compare_eq_eq.mpr rfl, Nat.compare_eq_eq.mpr rfl]
        rfl
      · rw [Nat.compare_eq_gt.mpr more]
        rcases mantissa_lt other more with lower | ⟨same, lower⟩
        · rw [Int.compare_eq_gt.mpr (by omega)]
          rfl
        · rw [same, equal, Nat.compare_eq_gt.mpr lower]
          rfl
    · obtain rfl : j = 0 := by omega
      rw [dif_pos one, Nat.compare_eq_gt.mpr one]
      rfl
  · obtain rfl : i = 0 := by omega
    by_cases other : 0 < j
    · rw [dif_pos other, Nat.compare_eq_lt.mpr other]
      rfl
    · obtain rfl : j = 0 := by omega
      rfl

theorem ofInt_lt (left : i < 2 ^ 53) (right : j < 2 ^ 53) : ofInt i < ofInt j ↔ i < j := by
  change decide ((ofInt i).toModel < (ofInt j).toModel) = true ↔ _
  rw [decide_eq_true_iff]
  change UnpackedFloat.lt (ofInt i).toModel.unpack (ofInt j).toModel.unpack = true ↔ _
  rw [unpack_ofInt left, unpack_ofInt right, UnpackedFloat.lt, compare_counted, ← Nat.compare_eq_lt]
  simp

theorem zero_eq : (0 : Float) = ofInt 0 := rfl

theorem one_eq : (1 : Float) = ofInt 1 := by
  have exact : ofInt 1 = .ofModel (.pack (counted 1)) := ofInt_eq_counted (i := 1) (by decide)
  rw [exact]
  rfl

theorem ofInt_zero : ofInt 0 = .ofBits 0 := rfl

theorem toBits_zero : (ofInt 0).toBits = 0 := by
  rw [ofInt_zero]
  decide

/-- Among natural numbers, none but zero is equal to zero. -/
theorem equal_ofInt_zero (small : i < 2 ^ 53) : equal (ofInt i) 0 = decide (i = 0) := by
  have zero : Number.magnitude (ofInt 0) = 0 := by simp [Number.magnitude, toBits_zero]
  rw [zero_eq]
  by_cases positive : 0 < i
  · have exponent : i.log2 < 53 := (Nat.log2_lt (by omega)).mpr small
    have bounds := mantissa_bounds positive small
    have bits := toBits_ofInt positive small
    have above : 0 < Number.magnitude (ofInt i) := by
      unfold Number.magnitude
      rw [bits]
      unfold countBits implicitBit signBit
      omega
    have differ : (ofInt i).toBits ≠ 0 := by
      intro same
      rw [same] at bits
      unfold countBits implicitBit at bits
      change 0 = _ at bits
      omega
    simp [equal, isZero, toBits_zero, differ, Nat.ne_of_gt above, Nat.ne_of_gt positive]
  · obtain rfl : i = 0 := by omega
    simp [equal, isNaN, isZero, zero]

/-- What a positive natural number stands for is its full mantissa and its exponent. -/
theorem parts_ofInt (positive : 0 < i) (small : i < 2 ^ 53) :
    parts (ofInt i) = .finite false (mantissa i) (i.log2 - 52) := by
  have exponent : i.log2 < 53 := (Nat.log2_lt (by omega)).mpr small
  have bounds := mantissa_bounds positive small
  have bits := toBits_ofInt positive small
  unfold parts
  dsimp only
  generalize (ofInt i).toBits.toNat = b at bits ⊢
  unfold countBits implicitBit at bits
  have field : b / implicitBit % 2048 = i.log2 + 1023 := by
    unfold implicitBit
    omega
  have fraction : implicitBit + b % implicitBit = mantissa i := by
    simp only [implicitBit]
    omega
  have unsigned : ¬ signBit ≤ b := by
    unfold signBit
    omega
  rw [field, fraction, if_neg (by omega), if_neg (by omega), decide_eq_false unsigned,
    show ((i.log2 + 1023 : Nat) : Int) - 1075 = i.log2 - 52 by omega]

/-- A natural number is an integer. -/
theorem toInt?_ofInt (small : i < 2 ^ 53) : toInt? (ofInt i) = some (i : Int) := by
  by_cases positive : 0 < i
  · have exponent : i.log2 < 53 := (Nat.log2_lt (by omega)).mpr small
    have back : mantissa i % Nat.pow 2 (52 - i.log2) = 0 ∧ mantissa i / Nat.pow 2 (52 - i.log2) = i :=
      ⟨Nat.mul_mod_left _ _, Nat.mul_div_cancel _ (Nat.two_pow_pos _)⟩
    unfold toInt?
    simp only [parts_ofInt positive small]
    by_cases full : i.log2 = 52
    · simp [full, mantissa]
    · rw [if_neg (by omega), show (-((i.log2 : Int) - 52)).toNat = 52 - i.log2 by omega, if_pos back.1, back.2]
      rfl
  · obtain rfl : i = 0 := by omega
    have whole : parts (ofInt ((0 : Nat) : Int)) = .finite false 0 (-1074) := by
      simp [parts, toBits_zero, signBit]
    unfold toInt?
    simp only [whole, Nat.zero_mod, Nat.zero_div]
    rfl

end ScriptEngine.Number
