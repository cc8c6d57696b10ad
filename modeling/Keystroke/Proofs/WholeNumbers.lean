import Mathlib
import Keystroke.Binary64

/-!
# Whole binary64 numbers

A whole number below `2 ^ 53` has exactly one pattern of bits, the two zeros apart. So the integer that
a number equals gives the number back, sign bit included.
-/

namespace Keystroke.Binary64

/-! ## The fields of a pattern of bits -/

theorem biasedExponent_eq (x : Binary64) : x.biasedExponent = x.bits.toNat / 2 ^ 52 % 2 ^ 11 := by
  rw [biasedExponent, UInt64.toNat_and, UInt64.toNat_shiftRight, Nat.shiftRight_eq_div_pow]
  exact Nat.and_two_pow_sub_one_eq_mod _ 11

theorem fraction_eq (x : Binary64) : x.fraction = x.bits.toNat % 2 ^ 52 := by
  rw [fraction, UInt64.toNat_and]
  exact Nat.and_two_pow_sub_one_eq_mod _ 52

theorem fraction_lt (x : Binary64) : x.fraction < 2 ^ 52 := by
  rw [fraction_eq]
  exact Nat.mod_lt _ (by decide)

theorem biasedExponent_lt (x : Binary64) : x.biasedExponent < 2 ^ 11 := by
  rw [biasedExponent_eq]
  exact Nat.mod_lt _ (by decide)

theorem isNegative_eq (x : Binary64) : x.isNegative = decide (2 ^ 63 ≤ x.bits.toNat) := by
  have bound := x.bits.toNat_lt
  have quotient : (x.bits.toNat &&& 2 ^ 63) / 2 ^ 63 = x.bits.toNat / 2 ^ 63 := by
    rw [Nat.and_div_two_pow, Nat.div_self (by decide), Nat.and_one_is_mod]
    omega
  have remainder : (x.bits.toNat &&& 2 ^ 63) % 2 ^ 63 = 0 := by
    rw [Nat.and_mod_two_pow, Nat.mod_self, Nat.and_zero]
  have masked : (x.bits &&& signMask).toNat = x.bits.toNat &&& 2 ^ 63 := UInt64.toNat_and ..
  rw [isNegative, Bool.eq_iff_iff, bne_iff_ne, decide_eq_true_eq, ne_eq, ← UInt64.toNat_inj,
    masked, UInt64.toNat_zero]
  omega

/-- A pattern of bits is its sign, its exponent and its fraction side by side. -/
theorem toNat_bits (x : Binary64) :
    x.bits.toNat =
      (if x.isNegative then 2 ^ 63 else 0) + x.biasedExponent * 2 ^ 52 + x.fraction := by
  have bound := x.bits.toNat_lt
  rw [biasedExponent_eq, fraction_eq, isNegative_eq]
  by_cases negative : 2 ^ 63 ≤ x.bits.toNat <;> simp only [negative, decide_true, decide_false,
    if_true, Bool.false_eq_true, if_false] <;> omega

/-- Negating a number without a sign sets the sign bit. -/
theorem toNat_neg_bits (x : Binary64) (positive : x.bits.toNat < 2 ^ 63) :
    (-x).bits.toNat = 2 ^ 63 + x.bits.toNat := by
  have quotient : (x.bits.toNat ^^^ 2 ^ 63) / 2 ^ 63 = 1 := by
    rw [Nat.xor_div_two_pow, Nat.div_eq_of_lt positive, Nat.div_self (by decide), Nat.zero_xor]
  have remainder : (x.bits.toNat ^^^ 2 ^ 63) % 2 ^ 63 = x.bits.toNat := by
    rw [Nat.xor_mod_two_pow, Nat.mod_self, Nat.xor_zero, Nat.mod_eq_of_lt positive]
  have flipped : (-x).bits.toNat = x.bits.toNat ^^^ 2 ^ 63 := UInt64.toNat_xor ..
  rw [flipped, ← Nat.div_add_mod (x.bits.toNat ^^^ 2 ^ 63) (2 ^ 63), quotient, remainder,
    Nat.mul_one]

theorem ext_toNat {x y : Binary64} (same : x.bits.toNat = y.bits.toNat) : x = y := by
  cases x
  cases y
  exact congrArg mk (UInt64.toNat_inj.mp same)

/-! ## Whole numbers -/

/-- The fields of the number that a positive natural number below `2 ^ 53` is turned into. -/
theorem toNat_ofNat_bits {n : Nat} (positive : 0 < n) (fits : n < 2 ^ 53) :
    (ofNat n).bits.toNat =
      (1023 + n.log2) * 2 ^ 52 + (n * 2 ^ (52 - n.log2) - 2 ^ 52) := by
  have log_le : n.log2 ≤ 52 := by
    have := (Nat.log2_lt positive.ne').mpr fits
    omega
  have scaled : n * 2 ^ (52 - n.log2) < 2 ^ 53 := by
    calc
      n * 2 ^ (52 - n.log2) < 2 ^ (n.log2 + 1) * 2 ^ (52 - n.log2) :=
        Nat.mul_lt_mul_of_pos_right Nat.lt_log2_self (by positivity)
      _ = 2 ^ 53 := by rw [← Nat.pow_add]; congr 1; omega
  have bound : (1023 + n.log2) * 2 ^ 52 + (n * 2 ^ (52 - n.log2) - 2 ^ 52) < 2 ^ 64 := by omega
  have hidden : hiddenBit = 2 ^ 52 := by decide
  rw [ofNat, if_neg positive.ne', if_pos (by omega), hidden, Nat.toUInt64, UInt64.toNat_ofNat',
    Nat.pow_eq, Nat.mod_eq_of_lt bound]

/-- The fields of a positive natural number below `2 ^ 53`: its highest digit is the hidden bit. -/
theorem fields_ofNat {n : Nat} (positive : 0 < n) (fits : n < 2 ^ 53) :
    (ofNat n).isNegative = false ∧ (ofNat n).biasedExponent = 1023 + n.log2 ∧
      2 ^ 52 + (ofNat n).fraction = n * 2 ^ (52 - n.log2) := by
  have bits := toNat_ofNat_bits positive fits
  have log_le : n.log2 ≤ 52 := by
    have := (Nat.log2_lt positive.ne').mpr fits
    omega
  have low : 2 ^ 52 ≤ n * 2 ^ (52 - n.log2) := by
    calc
      2 ^ 52 = 2 ^ n.log2 * 2 ^ (52 - n.log2) := by rw [← Nat.pow_add]; congr 1; omega
      _ ≤ n * 2 ^ (52 - n.log2) := Nat.mul_le_mul_right _ (Nat.log2_self_le positive.ne')
  have high : n * 2 ^ (52 - n.log2) < 2 ^ 53 := by
    calc
      n * 2 ^ (52 - n.log2) < 2 ^ (n.log2 + 1) * 2 ^ (52 - n.log2) :=
        Nat.mul_lt_mul_of_pos_right Nat.lt_log2_self (by positivity)
      _ = 2 ^ 53 := by rw [← Nat.pow_add]; congr 1; omega
  rw [isNegative_eq, biasedExponent_eq, fraction_eq, bits]
  refine ⟨?_, ?_, ?_⟩
  · rw [decide_eq_false_iff_not]
    omega
  · omega
  · omega

/-- A natural number below `2 ^ 53` is read back. -/
theorem toNatUpTo_ofNat {n limit : Nat} (fits : n < 2 ^ 53) (within : n ≤ limit) :
    (ofNat n).toNatUpTo limit = n := by
  rcases Nat.eq_zero_or_pos n with rfl | positive
  · have significand : (ofNat 0).significand = 0 := by decide
    have finite : (ofNat 0).isInfinite = false := by decide
    have zero : (ofNat 0).wholePart = 0 := by simp [wholePart, significand]
    simp [toNatUpTo, zero, finite]
  · obtain ⟨positiveSign, exponent, significand⟩ := fields_ofNat positive fits
    have log_le : n.log2 ≤ 52 := by
      have := (Nat.log2_lt positive.ne').mpr fits
      omega
    have whole : (ofNat n).wholePart = n := by
      have scale : (ofNat n).scale = (n.log2 : Int) - 52 := by
        rw [scale, if_neg (by omega), exponent]
        omega
      have digits : (ofNat n).significand = n * 2 ^ (52 - n.log2) := by
        rw [Binary64.significand, if_neg (by omega), ← significand]
        rfl
      have shift : (-(ofNat n).scale).toNat = 52 - n.log2 := by omega
      rw [wholePart, digits]
      split
      · have : n.log2 = 52 := by omega
        simp [scale, this]
      · rw [shift, Nat.pow_eq, Nat.mul_div_cancel _ (Nat.two_pow_pos _)]
    have finite : (ofNat n).biasedExponent ≠ 2047 := by omega
    simp [toNatUpTo, isNaN, isInfinite, positiveSign, finite, whole, within]

/-- A number whose whole part is all of it, and is not zero, is the whole part with the sign. -/
theorem toNat_ofNat_wholePart {x : Binary64}
    (whole : 0 ≤ x.scale ∨ x.significand % 2 ^ (-x.scale).toNat = 0)
    (positive : 0 < x.wholePart) (fits : x.wholePart < 2 ^ 53) :
    (ofNat x.wholePart).bits.toNat = x.biasedExponent * 2 ^ 52 + x.fraction := by
  have fractionBound := x.fraction_lt
  -- A subnormal number has no whole part, and from exponent 1076 on the whole part is too large.
  have normal : x.biasedExponent ≠ 0 := by
    intro subnormal
    have significand : x.significand = x.fraction := by rw [significand, if_pos subnormal]
    have scale : x.scale = -1074 := by rw [scale, if_pos subnormal]
    have none : x.wholePart = 0 := by
      have shift : 52 ≤ (-x.scale).toNat := by omega
      rw [wholePart, if_neg (by omega), significand]
      exact Nat.div_eq_of_lt (fractionBound.trans_le (Nat.pow_le_pow_right Nat.two_pos shift))
    omega
  have significand : x.significand = 2 ^ 52 + x.fraction := by
    rw [Binary64.significand, if_neg normal]
    rfl
  have scale : x.scale = (x.biasedExponent : Int) - 1075 := by rw [Binary64.scale, if_neg normal]
  have small : x.biasedExponent ≤ 1075 := by
    by_contra large
    have shift : 1 ≤ x.scale.toNat := by omega
    have huge : 2 ^ 52 * 2 ^ 1 ≤ x.wholePart := by
      rw [wholePart, if_pos (by omega), significand]
      exact Nat.mul_le_mul (by omega) (Nat.pow_le_pow_right (by decide) shift)
    omega
  obtain ⟨shift, shiftEq⟩ : ∃ shift, x.biasedExponent + shift = 1075 :=
    ⟨1075 - x.biasedExponent, by omega⟩
  have product : x.wholePart * 2 ^ shift = 2 ^ 52 + x.fraction := by
    rw [← significand, wholePart]
    by_cases exact : shift = 0
    · have : x.scale.toNat = 0 := by omega
      rw [if_pos (by omega), this, exact, Nat.pow_eq, Nat.pow_zero, Nat.mul_one, Nat.mul_one]
    · have negative : (-x.scale).toNat = shift := by omega
      have divides : x.significand % 2 ^ shift = 0 := by
        rcases whole with nonneg | divides
        · omega
        · rwa [negative] at divides
      rw [if_neg (by omega), negative]
      exact Nat.div_mul_cancel (Nat.dvd_of_mod_eq_zero divides)
  have shift_le : shift ≤ 52 := by
    by_contra large
    have : 2 ^ 53 ≤ x.wholePart * 2 ^ shift :=
      calc
        2 ^ 53 ≤ 2 ^ shift := Nat.pow_le_pow_right (by decide) (by omega)
        _ ≤ x.wholePart * 2 ^ shift := Nat.le_mul_of_pos_left _ positive
    omega
  have log : x.wholePart.log2 = 52 - shift := by
    have split : 2 ^ (52 - shift) * 2 ^ shift = 2 ^ 52 := by
      rw [← Nat.pow_add]; congr 1; omega
    rw [Nat.log2_eq_iff positive.ne']
    constructor
    · refine Nat.le_of_mul_le_mul_right ?_ (Nat.two_pow_pos shift)
      omega
    · refine Nat.lt_of_mul_lt_mul_right (a := 2 ^ shift) ?_
      rw [Nat.pow_succ, Nat.mul_right_comm]
      omega
  have back : 52 - (52 - shift) = shift := by omega
  rw [toNat_ofNat_bits positive fits, log, back, product]
  omega

/-- A number equals zero only if all its bits but the sign are clear. -/
theorem fields_eq_zero_of_wholePart {x : Binary64}
    (whole : 0 ≤ x.scale ∨ x.significand % 2 ^ (-x.scale).toNat = 0)
    (zero : x.wholePart = 0) : x.biasedExponent = 0 ∧ x.fraction = 0 := by
  have none : x.significand = 0 := by
    rw [wholePart] at zero
    split at zero
    · exact (Nat.mul_eq_zero.mp zero).resolve_right (Nat.two_pow_pos _).ne'
    · next negative =>
        have divides := Nat.dvd_of_mod_eq_zero (whole.resolve_left negative)
        rw [← Nat.div_mul_cancel divides, ← Nat.pow_eq, zero, Nat.zero_mul]
  rw [significand] at none
  split at none
  · next subnormal => exact ⟨subnormal, none⟩
  · simp [hiddenBit] at none

/-- The integer that a number equals gives the number back, unless it is the negative zero. -/
theorem ofInt_of_toInt? {x : Binary64} {n : Int} (integer : x.toInt? = some n)
    (fits : n.natAbs < 2 ^ 53) (notNegativeZero : x.bits ≠ signMask) : ofInt n = x := by
  have parts := x.toNat_bits
  have fractionBound := x.fraction_lt
  have exponentBound := x.biasedExponent_lt
  rw [toInt?] at integer
  split at integer
  · cases integer
  split at integer
  · next whole =>
      have same : (if x.isNegative then -(x.wholePart : Int) else x.wholePart) = n :=
        Option.some.inj integer
      have magnitude : n.natAbs = x.wholePart := by
        rw [← same]
        split <;> simp
      apply ext_toNat
      rw [ofInt, magnitude]
      rcases Nat.eq_zero_or_pos x.wholePart with zero | positive
      · obtain ⟨exponent, fraction⟩ := fields_eq_zero_of_wholePart whole zero
        have unsigned : ¬ x.isNegative := by
          intro negative
          apply notNegativeZero
          apply UInt64.toNat_inj.mp
          rw [parts, if_pos negative, exponent, fraction]
          rfl
        rw [if_neg (by omega), zero, parts, if_neg unsigned, exponent, fraction]
        rfl
      · have fields := toNat_ofNat_wholePart whole positive (magnitude ▸ fits)
        have unsigned : (ofNat x.wholePart).bits.toNat < 2 ^ 63 := by omega
        by_cases negative : x.isNegative
        · rw [if_pos negative] at same parts
          rw [if_pos (by omega), toNat_neg_bits _ unsigned, fields, parts, Nat.add_assoc]
        · rw [if_neg negative] at same parts
          rw [if_neg (by omega), fields, parts, Nat.zero_add]
  · cases integer

end Keystroke.Binary64
