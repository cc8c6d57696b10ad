import Mathlib
import Keystroke.Proofs.WholeNumbers

/-!
# The order of binary64 numbers

Two numbers that are no NaN compare as the multiples of the least positive number that they are, so the whole
part of a number that is not above a natural number is not above it either.
-/

namespace Keystroke.Binary64

open Float.Model (Format UnpackedFloat)
open Float.Model.UnpackedFloat (Sign packComponents unpackSign unpackExponent unpackMantissa)

/-! ## The parts of a pattern of bits -/

section Parts

variable (bits : BitVec Format.binary64.numBits)

theorem toNat_unpackMantissa : (unpackMantissa bits).toNat = bits.toNat % 2 ^ 52 := by
  simp [unpackMantissa]

theorem toNat_unpackExponent : (unpackExponent bits).toNat = bits.toNat / 2 ^ 52 % 2 ^ 11 := by
  simp [unpackExponent, Nat.shiftRight_eq_div_pow]

theorem toNat_unpackSign : (unpackSign bits).toNat = bits.toNat / 2 ^ 63 := by
  have bound : bits.toNat < 2 ^ 64 := bits.isLt
  have small : bits.toNat / 2 ^ 63 < 2 := by omega
  simpa [unpackSign, Nat.shiftRight_eq_div_pow] using small

theorem toNat_packComponents (sign : Sign) (exponent : BitVec 11) (mantissa : BitVec 52) :
    (packComponents Format.binary64 sign exponent mantissa).toNat =
      (sign.toBitVec.toNat * 2 ^ 11 + exponent.toNat) * 2 ^ 52 + mantissa.toNat := by
  rw [packComponents, BitVec.toNat_append, BitVec.toNat_append,
    ← Nat.shiftLeft_add_eq_or_of_lt exponent.isLt, ← Nat.shiftLeft_add_eq_or_of_lt mantissa.isLt,
    Nat.shiftLeft_eq, Nat.shiftLeft_eq]

end Parts

/-! ## What a pattern of bits stands for -/

variable {x y : Binary64}

/-- The sign of a number. -/
def sign (x : Binary64) : Sign := if x.isNegative then .negative else .positive

/-- What a number stands for: no number, an infinity, a zero, or its significand scaled. -/
inductive Stands (x : Binary64) : UnpackedFloat → Prop
  | notANumber (isNaN : x.isNaN = true) : Stands x .notANumber
  | infinity (isInfinite : x.isInfinite = true) : Stands x (.infinity x.sign)
  | zero (finite : x.biasedExponent ≠ 2047) (none : x.significand = 0) : Stands x (.zero x.sign)
  | finite (finite : x.biasedExponent ≠ 2047) (positive : 0 < x.significand) :
      Stands x (.finite x.sign x.significand x.scale positive)

theorem toNat_unpackExponent_bits (x : Binary64) :
    (@unpackExponent Format.binary64 x.bits.toBitVec).toNat = x.biasedExponent := by
  rw [toNat_unpackExponent, biasedExponent_eq, UInt64.toNat_toBitVec]

theorem toNat_unpackMantissa_bits (x : Binary64) :
    (@unpackMantissa Format.binary64 x.bits.toBitVec).toNat = x.fraction := by
  rw [toNat_unpackMantissa, fraction_eq, UInt64.toNat_toBitVec]

theorem ofBitVec_unpackSign_bits (x : Binary64) :
    Sign.ofBitVec (@unpackSign Format.binary64 x.bits.toBitVec) = x.sign := by
  have bound := x.bits.toNat_lt
  have value := toNat_unpackSign x.bits.toBitVec
  rw [UInt64.toNat_toBitVec] at value
  rw [sign, isNegative_eq, Sign.ofBitVec]
  by_cases negative : 2 ^ 63 ≤ x.bits.toNat
  · rw [if_neg, if_pos (decide_eq_true negative)]
    intro zero
    rw [zero, BitVec.toNat_ofNat] at value
    omega
  · rw [if_pos, if_neg (by rw [decide_eq_false negative]; decide)]
    apply BitVec.eq_of_toNat_eq
    rw [value, Nat.div_eq_of_lt (by omega)]
    rfl

theorem toNat_one_append (mantissa : BitVec 52) : (1#1 ++ mantissa).toNat = 2 ^ 52 + mantissa.toNat := by
  rw [BitVec.toNat_append, ← Nat.shiftLeft_add_eq_or_of_lt mantissa.isLt]
  rfl

theorem stands_unpack (x : Binary64) :
    x.Stands (UnpackedFloat.unpack Format.binary64 x.bits.toBitVec) := by
  have exponent := x.toNat_unpackExponent_bits
  have mantissa := x.toNat_unpackMantissa_bits
  rw [UnpackedFloat.unpack]
  dsimp only
  rw [ofBitVec_unpackSign_bits]
  split
  · next largest =>
      have isLargest : x.biasedExponent = 2047 := by rw [← exponent, largest]; rfl
      split
      · next none =>
          have isNone : x.fraction = 0 := by rw [← mantissa, none]; rfl
          exact .infinity (by simp [isInfinite, isLargest, isNone])
      · next some =>
          have isSome : x.fraction ≠ 0 := fun none => some (BitVec.eq_of_toNat_eq (mantissa.trans none))
          exact .notANumber (by simp [isNaN, isLargest, isSome])
  · next notLargest =>
      have finite : x.biasedExponent ≠ 2047 := fun largest =>
        notLargest (BitVec.eq_of_toNat_eq (exponent.trans largest))
      split
      · next least =>
          have isLeast : x.biasedExponent = 0 := by rw [← exponent, least]; rfl
          have significand : x.significand = x.fraction := by rw [Binary64.significand, if_pos isLeast]
          split
          · next none =>
              have isNone : x.fraction = 0 := by rw [← mantissa, none]; rfl
              exact .zero finite (significand.trans isNone)
          · next some =>
              have isSome : x.fraction ≠ 0 := fun none =>
                some (BitVec.eq_of_toNat_eq (mantissa.trans none))
              have scale : x.scale = -1074 := by rw [Binary64.scale, if_pos isLeast]
              have stands := Stands.finite finite (by omega : 0 < x.significand)
              simp only [significand, scale] at stands
              simp only [exponent, isLeast, mantissa]
              exact stands
      · next notLeast =>
          have normal : x.biasedExponent ≠ 0 := fun least =>
            notLeast (BitVec.eq_of_toNat_eq (exponent.trans least))
          have significand : x.significand = 2 ^ 52 + x.fraction := by
            rw [Binary64.significand, if_neg normal]; rfl
          have scale : x.scale = (x.biasedExponent : Int) - 1075 := by
            rw [Binary64.scale, if_neg normal]
          have stands := Stands.finite finite (by omega : 0 < x.significand)
          simp only [significand, scale] at stands
          simp only [exponent, toNat_one_append, mantissa]
          exact stands

/-- A finite number is packed to its own bits. -/
theorem pack_finite (finite : x.biasedExponent ≠ 2047) (positive : 0 < x.significand) :
    UnpackedFloat.pack Format.binary64 (.finite x.sign x.significand x.scale positive) =
      x.bits.toBitVec := by
  have parts := x.toNat_bits
  have fraction := x.fraction_lt
  have exponent := x.biasedExponent_lt
  have signBit : x.sign.toBitVec.toNat * 2 ^ 63 = if x.isNegative then 2 ^ 63 else 0 := by
    rw [sign]
    split <;> rfl
  rw [← signBit] at parts
  apply BitVec.eq_of_toNat_eq
  refine Eq.trans ?_ parts.symm
  rw [UnpackedFloat.pack]
  dsimp only
  have bias : (Format.binary64.exponentBias : Int) = 1023 := rfl
  have digits : Format.binary64.mantissaBits = 53 := rfl
  rw [bias, digits]
  by_cases least : x.biasedExponent = 0
  · have significand : x.significand = x.fraction := by rw [Binary64.significand, if_pos least]
    have scale : (x.scale + 1023 + ((52 : Nat) : Int)).toNat = 1 := by
      rw [Binary64.scale, if_pos least]; rfl
    have short : x.significand.log2 < 52 := (Nat.log2_lt positive.ne').mpr (by omega)
    have exponentBits : (0#11).toNat = 0 := rfl
    have mantissaBits : (BitVec.ofNat 52 x.significand).toNat = x.fraction := by
      rw [BitVec.toNat_ofNat, significand, Nat.mod_eq_of_lt fraction]
    rw [scale, if_neg (by decide), if_neg (by omega), toNat_packComponents, exponentBits,
      mantissaBits, least]
    ring
  · have significand : x.significand = 2 ^ 52 + x.fraction := by
      rw [Binary64.significand, if_neg least]; rfl
    have scale : (x.scale + 1023 + ((52 : Nat) : Int)).toNat = x.biasedExponent := by
      rw [Binary64.scale, if_neg least]; omega
    have low : 52 ≤ x.significand.log2 := (Nat.le_log2 positive.ne').mpr (by omega)
    have high : x.significand.log2 < 53 := (Nat.log2_lt positive.ne').mpr (by omega)
    have exponentBits : (BitVec.ofNat 11 x.biasedExponent).toNat = x.biasedExponent := by
      rw [BitVec.toNat_ofNat, Nat.mod_eq_of_lt exponent]
    have mantissaBits : (BitVec.ofNat 52 x.significand).toNat = x.fraction := by
      rw [BitVec.toNat_ofNat, significand, Nat.add_mod_left, Nat.mod_eq_of_lt fraction]
    rw [scale, if_neg (by omega), if_pos (by omega), toNat_packComponents, exponentBits, mantissaBits]
    ring

/-- What a number stands for is packed and read again as the same. -/
theorem Stands.unpack_pack {stood : UnpackedFloat} (stands : x.Stands stood) :
    UnpackedFloat.unpack Format.binary64 (UnpackedFloat.pack Format.binary64 stood) = stood ∨
      UnpackedFloat.pack Format.binary64 stood = x.bits.toBitVec := by
  cases stands with
  | notANumber => exact .inl rfl
  | infinity => cases x.sign <;> exact .inl rfl
  | zero => cases x.sign <;> exact .inl rfl
  | finite finite positive => exact .inr (pack_finite finite positive)

/-- What is compared of a number is what it stands for. -/
theorem stands_toFloat (x : Binary64) : x.Stands x.toFloat.toModel.unpack := by
  have stands := x.stands_unpack
  show x.Stands (UnpackedFloat.unpack Format.binary64 (UnpackedFloat.pack Format.binary64
    (UnpackedFloat.unpack Format.binary64 x.bits.toBitVec)))
  rcases stands.unpack_pack with same | same
  · rwa [same]
  · rwa [same]

/-! ## Multiples of the least positive number -/

/-- The magnitude of a number, counted in the least positive one; an infinity follows the largest finite
number. -/
def magnitude (x : Binary64) : Nat := x.significand * 2 ^ (x.biasedExponent - 1)

/-- A number that is no NaN as a multiple of the least positive one. -/
def units (x : Binary64) : Int := x.sign.apply x.magnitude

theorem significand_lt (x : Binary64) : x.significand < 2 ^ 53 := by
  have fraction := x.fraction_lt
  have hidden : hiddenBit = 2 ^ 52 := by decide
  rw [significand]
  split <;> omega

theorem significand_normal (x : Binary64) : x.biasedExponent - 1 = 0 ∨ 2 ^ 52 ≤ x.significand := by
  have hidden : hiddenBit = 2 ^ 52 := by decide
  rw [significand]
  split <;> omega

theorem scale_eq (x : Binary64) : x.scale = ((x.biasedExponent - 1 : Nat) : Int) - 1074 := by
  rw [scale]
  split <;> omega

/-- A significand with a larger scale is more, as it has its highest digit. -/
theorem scaled_lt {first second scale larger : Nat} (bound : first < 2 ^ 53) (lt : scale < larger)
    (normal : larger = 0 ∨ 2 ^ 52 ≤ second) : first * 2 ^ scale < second * 2 ^ larger :=
  calc
    first * 2 ^ scale < 2 ^ 53 * 2 ^ scale := Nat.mul_lt_mul_of_pos_right bound (Nat.two_pow_pos _)
    _ = 2 ^ 52 * 2 ^ (scale + 1) := by rw [← Nat.pow_add, ← Nat.pow_add]; congr 1; omega
    _ ≤ second * 2 ^ larger :=
      Nat.mul_le_mul (normal.resolve_left (by omega)) (Nat.pow_le_pow_right Nat.two_pos lt)

theorem fields_infinity : infinity.biasedExponent = 2047 ∧ infinity.fraction = 0 := by
  decide

theorem magnitude_of_infinite (isInfinite : x.isInfinite = true) :
    x.magnitude = infinity.magnitude := by
  obtain ⟨exponent, fraction⟩ := fields_infinity
  simp only [Binary64.isInfinite, Bool.and_eq_true, beq_iff_eq] at isInfinite
  simp only [magnitude, significand, isInfinite, exponent, fraction]

/-- The infinities follow the largest finite number. -/
theorem magnitude_lt (finite : x.biasedExponent ≠ 2047) : x.magnitude < infinity.magnitude := by
  obtain ⟨largest, -⟩ := fields_infinity
  have exponent := x.biasedExponent_lt
  exact scaled_lt x.significand_lt (by omega) infinity.significand_normal

theorem magnitude_pos (positive : 0 < x.significand) : 0 < x.magnitude :=
  Nat.mul_pos positive (Nat.two_pow_pos _)

theorem magnitude_of_none (none : x.significand = 0) : x.magnitude = 0 := by
  rw [magnitude, none, Nat.zero_mul]

theorem compare_magnitude (x y : Binary64) :
    (compare x.scale y.scale).then (compare x.significand y.significand) =
      compare x.magnitude y.magnitude := by
  rw [scale_eq, scale_eq, magnitude, magnitude]
  rcases Nat.lt_trichotomy (x.biasedExponent - 1) (y.biasedExponent - 1) with lt | same | lt
  · rw [Int.compare_eq_lt.mpr (by omega),
      Nat.compare_eq_lt.mpr (scaled_lt x.significand_lt lt y.significand_normal)]
    rfl
  · rw [same, Int.compare_eq_eq.mpr rfl]
    have positive : 0 < 2 ^ (y.biasedExponent - 1) := Nat.two_pow_pos _
    rcases Nat.lt_trichotomy x.significand y.significand with lt | equal | lt
    · rw [Nat.compare_eq_lt.mpr lt, Nat.compare_eq_lt.mpr (Nat.mul_lt_mul_of_pos_right lt positive)]
      rfl
    · rw [equal, Nat.compare_eq_eq.mpr rfl, Nat.compare_eq_eq.mpr rfl]
      rfl
    · rw [Nat.compare_eq_gt.mpr lt, Nat.compare_eq_gt.mpr (Nat.mul_lt_mul_of_pos_right lt positive)]
      rfl
  · rw [Int.compare_eq_gt.mpr (by omega),
      Nat.compare_eq_gt.mpr (scaled_lt y.significand_lt lt x.significand_normal)]
    rfl

theorem lt_iff_compare : x < y ↔
    x.toFloat.toModel.unpack.compare y.toFloat.toModel.unpack = some .lt := by
  show decide (x.toFloat.toModel.unpack.lt y.toFloat.toModel.unpack = true) = true ↔ _
  rw [decide_eq_true_eq, UnpackedFloat.lt, beq_iff_eq]

/-- What two numbers stand for is ordered as multiples of the least positive number. -/
theorem Stands.compare_eq {stood otherStood : UnpackedFloat} (stands : x.Stands stood)
    (otherStands : y.Stands otherStood) (isNumber : x.isNaN = false)
    (otherIsNumber : y.isNaN = false) :
    stood.compare otherStood = some .lt ↔ x.units < y.units := by
  have limit : 0 < Binary64.infinity.magnitude := magnitude_pos (by decide)
  rw [units, units]
  cases stands with
  | notANumber isNaN => simp [isNaN] at isNumber
  | infinity isInfinite =>
      have magnitude := magnitude_of_infinite isInfinite
      cases otherStands with
      | notANumber isNaN => simp [isNaN] at otherIsNumber
      | infinity otherInfinite =>
          have otherMagnitude := magnitude_of_infinite otherInfinite
          cases x.sign <;> cases y.sign <;> simp [UnpackedFloat.compare, Sign.apply, compare] <;> omega
      | zero otherFinite otherNone =>
          have otherMagnitude := magnitude_of_none otherNone
          cases x.sign <;> cases y.sign <;> simp [UnpackedFloat.compare, Sign.apply] <;> omega
      | finite otherFinite otherPositive =>
          have otherBound := magnitude_lt otherFinite
          have otherMagnitude := magnitude_pos otherPositive
          cases x.sign <;> cases y.sign <;> simp [UnpackedFloat.compare, Sign.apply] <;> omega
  | zero finite none =>
      have magnitude := magnitude_of_none none
      cases otherStands with
      | notANumber isNaN => simp [isNaN] at otherIsNumber
      | infinity otherInfinite =>
          have otherMagnitude := magnitude_of_infinite otherInfinite
          cases x.sign <;> cases y.sign <;> simp [UnpackedFloat.compare, Sign.apply] <;> omega
      | zero otherFinite otherNone =>
          have otherMagnitude := magnitude_of_none otherNone
          cases x.sign <;> cases y.sign <;> simp [UnpackedFloat.compare, Sign.apply] <;> omega
      | finite otherFinite otherPositive =>
          have otherMagnitude := magnitude_pos otherPositive
          cases x.sign <;> cases y.sign <;> simp [UnpackedFloat.compare, Sign.apply] <;> omega
  | finite finite positive =>
      have bound := magnitude_lt finite
      have magnitude := magnitude_pos positive
      cases otherStands with
      | notANumber isNaN => simp [isNaN] at otherIsNumber
      | infinity otherInfinite =>
          have otherMagnitude := magnitude_of_infinite otherInfinite
          cases x.sign <;> cases y.sign <;> simp [UnpackedFloat.compare, Sign.apply] <;> omega
      | zero otherFinite otherNone =>
          have otherMagnitude := magnitude_of_none otherNone
          cases x.sign <;> cases y.sign <;> simp [UnpackedFloat.compare, Sign.apply] <;> omega
      | finite otherFinite otherPositive =>
          have otherMagnitude := magnitude_pos otherPositive
          cases x.sign <;> cases y.sign <;>
            simp [UnpackedFloat.compare, Sign.apply, compare_magnitude, Nat.compare_eq_lt,
              Nat.compare_eq_gt]
          all_goals omega

/-- Numbers are ordered as multiples of the least positive one. -/
theorem lt_iff_units (isNumber : x.isNaN = false) (otherIsNumber : y.isNaN = false) :
    x < y ↔ x.units < y.units :=
  lt_iff_compare.trans (x.stands_toFloat.compare_eq y.stands_toFloat isNumber otherIsNumber)

/-! ## Whole numbers -/

/-- How many binary places a number can have behind the point. -/
def places : Nat := 1074

theorem scale_eq_places (x : Binary64) :
    x.scale = ((x.biasedExponent - 1 : Nat) : Int) - (places : Int) :=
  x.scale_eq

/-- The whole part of a number, by its magnitude. -/
theorem wholePart_eq (x : Binary64) : x.wholePart = x.magnitude / 2 ^ places := by
  have scale := x.scale_eq_places
  rw [wholePart, magnitude]
  split
  · next whole =>
      have shift : x.biasedExponent - 1 = x.scale.toNat + places := by omega
      rw [shift, Nat.pow_add, ← Nat.mul_assoc, Nat.mul_div_cancel _ (Nat.two_pow_pos _), Nat.pow_eq]
  · next fractional =>
      have shift : places = (-x.scale).toNat + (x.biasedExponent - 1) := by omega
      rw [shift, Nat.pow_add, Nat.mul_div_mul_right _ _ (Nat.two_pow_pos _), Nat.pow_eq]

/-- A natural number below `2 ^ 53` as a multiple of the least positive number. -/
theorem units_ofNat {n : Nat} (fits : n < 2 ^ 53) :
    (ofNat n).isNaN = false ∧ (ofNat n).units = (n * 2 ^ places : Nat) := by
  rcases Nat.eq_zero_or_pos n with rfl | positive
  · have none : (ofNat 0).significand = 0 := by decide
    have sign : (ofNat 0).sign = .positive := rfl
    refine ⟨by decide, ?_⟩
    rw [units, sign, Sign.apply, magnitude_of_none none, Nat.zero_mul]
  · obtain ⟨unsigned, exponent, significand⟩ := fields_ofNat positive fits
    have log_le : n.log2 ≤ 52 := Nat.le_of_lt_succ ((Nat.log2_lt positive.ne').mpr fits)
    have digits : (ofNat n).significand = n * 2 ^ (52 - n.log2) := by
      rw [Binary64.significand, if_neg (by omega), ← significand]
      rfl
    have shift : 52 - n.log2 + ((ofNat n).biasedExponent - 1) = places := by
      rw [exponent, places]
      omega
    refine ⟨by simp [isNaN, exponent]; omega, ?_⟩
    rw [units, sign, if_neg (by simp [unsigned]), Sign.apply, magnitude, digits, Nat.mul_assoc,
      ← Nat.pow_add, shift]

/-- A number that is not below a positive natural number has no sign and a whole part that is not below it,
if it is finite. -/
theorem of_not_lt_ofNat {n : Nat} (positive : 0 < n) (fits : n < 2 ^ 53) (isNumber : x.isNaN = false)
    (notBelow : ¬x < ofNat n) : x.isNegative = false ∧ n ≤ x.wholePart := by
  obtain ⟨otherIsNumber, otherUnits⟩ := units_ofNat fits
  rw [lt_iff_units isNumber otherIsNumber, otherUnits, not_lt, units, sign] at notBelow
  have magnitude : 0 < n * 2 ^ places := Nat.mul_pos positive (Nat.two_pow_pos _)
  cases negative : x.isNegative with
  | true =>
      simp only [negative, if_true, Sign.apply] at notBelow
      omega
  | false =>
      simp only [negative, Bool.false_eq_true, if_false, Sign.apply] at notBelow
      refine ⟨rfl, ?_⟩
      rw [wholePart_eq, Nat.le_div_iff_mul_le (Nat.two_pow_pos _)]
      exact_mod_cast notBelow

/-- The whole part that an infinity would have is above all natural numbers below `2 ^ 53`. -/
theorem wholePart_of_infinite (isInfinite : x.isInfinite = true) : 2 ^ 53 ≤ x.wholePart := by
  have hidden : hiddenBit = 2 ^ 52 := by decide
  simp only [Binary64.isInfinite, Bool.and_eq_true, beq_iff_eq] at isInfinite
  have scale : x.scale = 972 := by
    rw [Binary64.scale, if_neg (by omega), isInfinite.1]
    rfl
  have significand : 2 ^ 52 ≤ x.significand := by
    rw [Binary64.significand, if_neg (by omega)]
    omega
  have shift : 1 ≤ x.scale.toNat := by omega
  rw [wholePart, if_pos (by omega), Nat.pow_eq, Nat.pow_succ 2 52]
  exact Nat.mul_le_mul significand (Nat.pow_le_pow_right Nat.two_pos shift)

/-- A number without a sign that is not above a natural number is finite, and its whole part is not above it
either. -/
theorem of_not_ofNat_lt {n : Nat} (fits : n < 2 ^ 53) (isNumber : x.isNaN = false)
    (unsigned : x.isNegative = false) (notAbove : ¬ofNat n < x) :
    x.isInfinite = false ∧ x.wholePart ≤ n := by
  obtain ⟨otherIsNumber, otherUnits⟩ := units_ofNat fits
  rw [lt_iff_units otherIsNumber isNumber, otherUnits, not_lt, units, sign,
    if_neg (by simp [unsigned]), Sign.apply] at notAbove
  have bound : x.magnitude ≤ n * 2 ^ places := by exact_mod_cast notAbove
  have whole : x.wholePart ≤ n := by
    rw [wholePart_eq]
    exact Nat.div_le_of_le_mul (Nat.mul_comm n _ ▸ bound)
  refine ⟨Bool.eq_false_iff.mpr fun isInfinite => ?_, whole⟩
  have huge := wholePart_of_infinite isInfinite
  omega

end Keystroke.Binary64
