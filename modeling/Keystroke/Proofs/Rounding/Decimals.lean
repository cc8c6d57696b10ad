import Keystroke.Decimal.Reading
import Keystroke.Proofs.Rounding.Nearest

/-!
# Decimal numbers are rounded to the nearest number

Products and quotients of exact significands are rounded once. So is a decimal number, whose power of ten is
exact in the table or taken as a natural number.
-/

namespace Keystroke.Binary64

open Float.Model (Format UnpackedFloat)
open Float.Model.UnpackedFloat (ExtendedMantissa)

/-! ## Products, quotients and powers of ten -/

section Operations

variable {q : ℚ}

theorem rounds_mul {first second : Nat} {firstScale secondScale : Int} (firstPositive : 0 < first)
    (secondPositive : 0 < second) (long : 2 ^ 52 ≤ first * second) :
    Rounds (first * 2 ^ firstScale * (second * 2 ^ secondScale))
      (packed (UnpackedFloat.mul Format.binary64 (.finite .positive first firstScale firstPositive)
        (.finite .positive second secondScale secondPositive))) := by
  have log : 52 ≤ (first * second).log2 :=
    (Nat.le_log2 (Nat.mul_pos firstPositive secondPositive).ne').mpr long
  have product : (first : ℚ) * 2 ^ firstScale * (second * 2 ^ secondScale) =
      (first * second : ℕ) * 2 ^ (firstScale + secondScale) := by
    rw [zpow_add₀ two_ne_zero]
    push_cast
    ring
  rw [product]
  apply rounds_roundWithAccuracy (by positivity) _ (by omega)
  rw [mul_div_cancel_right₀ _ (zpow_ne_zero _ two_ne_zero)]
  simp [Describes, ExtendedMantissa.ofMantissaAndAccuracy]

/-- A remainder says how much of a unit the quotient leaves. -/
theorem describes_quotient {divisor : Nat} (positive : 0 < divisor) (dividend : Nat) :
    Describes (.ofMantissaAndAccuracy (dividend / divisor)
      (UnpackedFloat.accuracyOfFraction (dividend % divisor) divisor)) (dividend / divisor) := by
  have exact : (dividend : ℚ) = divisor * (dividend / divisor : ℕ) + (dividend % divisor : ℕ) := by
    exact_mod_cast (Nat.div_add_mod dividend divisor).symm
  have bound : ((dividend % divisor : ℕ) : ℚ) < divisor := by exact_mod_cast Nat.mod_lt dividend positive
  have unit : (0 : ℚ) < divisor := by exact_mod_cast positive
  rw [UnpackedFloat.accuracyOfFraction]
  split
  · next none =>
      simp only [Describes, ExtendedMantissa.ofMantissaAndAccuracy, Bool.false_eq_true, if_false, add_zero]
      rw [div_eq_iff unit.ne', exact, none]
      push_cast
      ring
  · next some =>
      have left : (0 : ℚ) < (dividend % divisor : ℕ) := by exact_mod_cast Nat.pos_of_ne_zero some
      rcases Nat.lt_trichotomy (2 * (dividend % divisor)) divisor with less | same | more
      · have less : (2 : ℚ) * (dividend % divisor : ℕ) < divisor := by exact_mod_cast less
        rw [Nat.compare_eq_lt.mpr (by exact_mod_cast less)]
        simp only [Describes, ExtendedMantissa.ofMantissaAndAccuracy, Bool.false_eq_true, if_false,
          if_true, add_zero]
        rw [lt_div_iff₀ unit, div_lt_iff₀ unit]
        constructor <;> nlinarith
      · have same : (2 : ℚ) * (dividend % divisor : ℕ) = divisor := by exact_mod_cast same
        rw [Nat.compare_eq_eq.mpr (by exact_mod_cast same)]
        simp only [Describes, ExtendedMantissa.ofMantissaAndAccuracy, Bool.false_eq_true, if_false, if_true]
        rw [div_eq_iff unit.ne']
        linarith
      · have more : (divisor : ℚ) < 2 * (dividend % divisor : ℕ) := by exact_mod_cast more
        rw [Nat.compare_eq_gt.mpr (by exact_mod_cast more)]
        simp only [Describes, ExtendedMantissa.ofMantissaAndAccuracy, if_true]
        rw [lt_div_iff₀ unit, div_lt_iff₀ unit]
        constructor <;> nlinarith

theorem rounds_div {first second : Nat} {firstScale secondScale : Int} (firstPositive : 0 < first)
    (secondPositive : 0 < second) :
    Rounds (first * 2 ^ firstScale / (second * 2 ^ secondScale))
      (packed (UnpackedFloat.div Format.binary64 (.finite .positive first firstScale firstPositive)
        (.finite .positive second secondScale secondPositive))) := by
  obtain ⟨scale, same⟩ : ∃ scale, scale = min (firstScale - secondScale)
      (max (((first.log2 : Int) + 1 + firstScale - (second.log2 + 1 + secondScale)) - 53) (-1074)) :=
    ⟨_, rfl⟩
  obtain ⟨shift, difference⟩ := Int.eq_ofNat_of_zero_le (a := firstScale - secondScale - scale) (by omega)
  have core : UnpackedFloat.divCore Format.binary64 first firstScale second secondScale =
      (first * 2 ^ shift / second, scale,
        UnpackedFloat.accuracyOfFraction (first * 2 ^ shift % second) second) := by
    have amount : (firstScale - secondScale - scale).toNat = shift := by omega
    rw [← Nat.shiftLeft_eq, ← amount, same]
    rfl
  have quotient : first * 2 ^ firstScale / (second * 2 ^ secondScale) / 2 ^ scale =
      ((first * 2 ^ shift : ℕ) : ℚ) / second := by
    have place : firstScale = shift + secondScale + scale := by omega
    rw [place, zpow_add₀ two_ne_zero, zpow_add₀ two_ne_zero, zpow_natCast]
    push_cast
    field_simp
  show Rounds _ (packed (match UnpackedFloat.divCore Format.binary64 first firstScale second secondScale with
    | (significand, scale, accuracy) =>
      UnpackedFloat.roundWithAccuracy Format.binary64 .positive significand scale accuracy))
  rw [core]
  apply rounds_roundWithAccuracy (by positivity)
  · rw [quotient]
    exact describes_quotient secondPositive _
  · -- Either the quotient is shifted to the least scale or it has more digits than a significand.
    by_cases least : scale ≤ -1074
    · omega
    · have long : 2 ^ 52 ≤ first * 2 ^ shift / second := by
        rw [Nat.le_div_iff_mul_le secondPositive]
        calc
          2 ^ 52 * second ≤ 2 ^ 52 * 2 ^ (second.log2 + 1) := Nat.mul_le_mul_left _ Nat.lt_log2_self.le
          _ = 2 ^ (52 + (second.log2 + 1)) := (Nat.pow_add ..).symm
          _ ≤ 2 ^ (first.log2 + shift) := Nat.pow_le_pow_right Nat.two_pos (by omega)
          _ = 2 ^ first.log2 * 2 ^ shift := Nat.pow_add ..
          _ ≤ first * 2 ^ shift := Nat.mul_le_mul_right _ (Nat.log2_self_le firstPositive.ne')
      have log : 52 ≤ (first * 2 ^ shift / second).log2 := (Nat.le_log2 (by omega)).mpr long
      omega

/-- The table of the powers of ten holds them exactly. -/
theorem powersOfTen_eq : ∀ exponent : Fin Float.exactlyRepresentablePowersOfTen.size,
    let x : Binary64 := ⟨Float.exactlyRepresentablePowersOfTen[exponent].toBits⟩
    x.isNegative = false ∧ x.biasedExponent ≠ 2047 ∧
      x.significand * 2 ^ x.scale.toNat = 10 ^ exponent.val * 2 ^ (-x.scale).toNat := by
  decide +kernel

/-- What a finite positive number stands for. -/
theorem unpack_eq {x : Binary64} (sign : x.isNegative = false) (finite : x.biasedExponent ≠ 2047)
    (positive : 0 < x.significand) :
    UnpackedFloat.unpack Format.binary64 x.bits.toBitVec =
      .finite .positive x.significand x.scale positive := by
  have positiveSign : x.sign = .positive := by rw [Binary64.sign, sign]; rfl
  have stands := x.stands_unpack
  generalize UnpackedFloat.unpack Format.binary64 x.bits.toBitVec = stood at stands ⊢
  cases stands with
  | notANumber isNaN => simp [Binary64.isNaN, finite] at isNaN
  | infinity isInfinite => simp [Binary64.isInfinite, finite] at isInfinite
  | zero _ none => omega
  | finite _ _ => rw [positiveSign]

theorem exists_unpack_powerOfTen {exponent : Nat}
    (inside : exponent < Float.exactlyRepresentablePowersOfTen.size) :
    ∃ significand scale positive,
      Float.exactlyRepresentablePowersOfTen[exponent].toModel.unpack =
        .finite .positive significand scale positive ∧
      (significand : ℚ) * 2 ^ scale = 10 ^ exponent := by
  obtain ⟨sign, finite, same⟩ := powersOfTen_eq ⟨exponent, inside⟩
  dsimp only [Fin.getElem_fin] at sign finite same
  generalize power : Float.exactlyRepresentablePowersOfTen[exponent] = float at sign finite same ⊢
  obtain ⟨x, bits⟩ : ∃ x : Binary64, x = ⟨float.toBits⟩ := ⟨_, rfl⟩
  rw [← bits] at sign finite same
  have positive : 0 < x.significand := by
    refine Nat.pos_of_ne_zero fun none => ?_
    rw [none, Nat.zero_mul] at same
    exact (Nat.mul_pos (by positivity) (by positivity)).ne same
  refine ⟨x.significand, x.scale, positive, ?_, ?_⟩
  · rw [← unpack_eq sign finite positive, bits]
    rfl
  · have same : (x.significand : ℚ) * 2 ^ x.scale.toNat = 10 ^ exponent * 2 ^ (-x.scale).toNat := by
      exact_mod_cast same
    rw [show x.scale = x.scale.toNat - (-x.scale).toNat by omega, zpow_sub₀ two_ne_zero, zpow_natCast,
      zpow_natCast, mul_div_assoc', same, mul_div_cancel_right₀ _ (by positivity)]

/-- A significand of the right length is not changed by rounding. -/
theorem roundWithAccuracy_exact {significand : Nat} {scale : Int} (low : 2 ^ 52 ≤ significand)
    (high : significand < 2 ^ 53) (least : -1074 ≤ scale) :
    UnpackedFloat.roundWithAccuracy Format.binary64 .positive significand scale .exact =
      .finite .positive significand scale (by omega) := by
  have log : significand.log2 = 52 := (Nat.log2_eq_iff (by omega)).mpr ⟨low, high⟩
  have stays : (max ((52 : ℕ) + 1 + scale - 53) (-1074) - scale).toNat = 0 := by omega
  have rounded : (ExtendedMantissa.ofMantissaAndAccuracy significand .exact).roundedMantissa =
      significand := rfl
  simp only [UnpackedFloat.roundWithAccuracy, UnpackedFloat.shiftToTargetExponent,
    UnpackedFloat.shiftToExponent, targetExponent_eq, log, stays, shiftRight_zero, rounded,
    Nat.cast_zero, add_zero]
  exact dif_neg (by show significand ≠ 0; omega)

theorem unpack_pack_finite {significand : Nat} {scale : Int} (positive : 0 < significand)
    (short : significand < 2 ^ 53) (low : -1074 ≤ scale) (high : scale ≤ 971)
    (normal : scale = -1074 ∨ 2 ^ 52 ≤ significand) :
    UnpackedFloat.unpack Format.binary64
        (UnpackedFloat.pack Format.binary64 (.finite .positive significand scale positive)) =
      .finite .positive significand scale positive := by
  obtain ⟨sign, finite, digits, place⟩ := fields_packed positive short low high normal
  have unpacked := unpack_eq sign finite (by omega)
  simp only [digits, place] at unpacked
  exact unpacked

theorem shifted_bounds {n : Nat} (positive : 0 < n) (fits : n < 2 ^ 53) :
    2 ^ 52 ≤ n * 2 ^ (52 - n.log2) ∧ n * 2 ^ (52 - n.log2) < 2 ^ 53 := by
  have log_le : n.log2 ≤ 52 := Nat.le_of_lt_succ ((Nat.log2_lt positive.ne').mpr fits)
  constructor
  · calc
      2 ^ 52 = 2 ^ n.log2 * 2 ^ (52 - n.log2) := by rw [← Nat.pow_add]; congr 1; omega
      _ ≤ n * 2 ^ (52 - n.log2) := Nat.mul_le_mul_right _ (Nat.log2_self_le positive.ne')
  · calc
      n * 2 ^ (52 - n.log2) < 2 ^ (n.log2 + 1) * 2 ^ (52 - n.log2) :=
        Nat.mul_lt_mul_of_pos_right Nat.lt_log2_self (by positivity)
      _ = 2 ^ 53 := by rw [← Nat.pow_add]; congr 1; omega

/-- A natural number that fits is only moved to the left. -/
theorem unpack_toFloat {n : Nat} (positive : 0 < n) (fits : n < 2 ^ 53) :
    n.toUInt64.toFloat.toModel.unpack =
      .finite .positive (n * 2 ^ (52 - n.log2)) (n.log2 - 52) (by positivity) := by
  obtain ⟨significand, same⟩ : ∃ significand, significand = n * 2 ^ (52 - n.log2) := ⟨_, rfl⟩
  have log_le : n.log2 ≤ 52 := Nat.le_of_lt_succ ((Nat.log2_lt positive.ne').mpr fits)
  obtain ⟨low, high⟩ := shifted_bounds positive fits
  rw [← same] at low high
  have log : significand.log2 = 52 := (Nat.log2_eq_iff (by omega)).mpr ⟨low, high⟩
  have value : n.toUInt64.toNat = n := by simpa using Nat.mod_eq_of_lt (by omega : n < 2 ^ 64)
  have rounded : UnpackedFloat.ofUInt64 Format.binary64 n.toUInt64 =
      .finite .positive significand (n.log2 - 52) (by omega) := by
    rw [UnpackedFloat.ofUInt64, UnpackedFloat.ofNat, UnpackedFloat.ofInt, value,
      UnpackedFloat.normalize, Int.compare_eq_gt.mpr (by omega)]
    have left : (0 - max ((n.log2 : Int) + 1 + 0 - 53) (-1074)).toNat = 52 - n.log2 := by omega
    have place : (0 : Int) - ((52 - n.log2 : ℕ) : Int) = n.log2 - 52 := by omega
    simp only [UnpackedFloat.round, Int.toNat_natCast, UnpackedFloat.decreaseExponent, targetExponent_eq,
      left, place, Nat.shiftLeft_eq, ← same]
    exact roundWithAccuracy_exact low high (by omega)
  show UnpackedFloat.unpack Format.binary64 (UnpackedFloat.pack Format.binary64
    (UnpackedFloat.ofUInt64 Format.binary64 n.toUInt64)) = _
  simp only [rounded, ← same]
  exact unpack_pack_finite _ high (by omega) (by omega) (.inr low)

end Operations

/-! ## Decimal numbers -/

section Decimals

variable {q : ℚ}

theorem Rounds.ofFloat {unpacked : UnpackedFloat} (rounds : Rounds q (packed unpacked)) :
    Rounds q (ofFloat (.ofModel (.pack unpacked))) := by
  have number : (Float.ofModel (.pack unpacked)).isNaN = false := by
    have stands := (packed unpacked).stands_unpack
    show (UnpackedFloat.unpack Format.binary64 (packed unpacked).bits.toBitVec).isNaN = false
    generalize UnpackedFloat.unpack Format.binary64 (packed unpacked).bits.toBitVec = stood at stands ⊢
    cases stands with
    | notANumber isNaN => exact absurd rounds.isNaN_eq (by simp [isNaN])
    | infinity => rfl
    | zero => rfl
    | finite => rfl
  rw [Binary64.ofFloat, number, if_neg Bool.false_ne_true]
  exact rounds

theorem bound_le_of_power {place : Int} (high : 400 ≤ place) : (2 : ℚ) ^ 1024 - 2 ^ 970 ≤ 10 ^ place :=
  calc
    (2 : ℚ) ^ 1024 - 2 ^ 970 ≤ 2 ^ 1024 := sub_le_self _ (by positivity)
    _ ≤ 2 ^ (3 * 400) := pow_le_pow_right₀ one_le_two (by decide)
    _ = (2 ^ 3) ^ 400 := pow_mul _ _ _
    _ ≤ 10 ^ 400 := pow_le_pow_left₀ (by norm_num) (by norm_num) _
    _ = 10 ^ (400 : Int) := rfl
    _ ≤ 10 ^ place := zpow_le_zpow_right₀ (by norm_num) high

theorem power_le_of_low {place : Int} (low : place ≤ -400) : (10 : ℚ) ^ place ≤ 2 ^ (-1075 : Int) :=
  calc
    (10 : ℚ) ^ place ≤ 10 ^ (-400 : Int) := zpow_le_zpow_right₀ (by norm_num) low
    _ = (10 ^ 400)⁻¹ := rfl
    _ ≤ ((2 ^ 3) ^ 400)⁻¹ := by
      gcongr
      norm_num
    _ = (2 ^ (3 * 400))⁻¹ := by rw [pow_mul]
    _ ≤ (2 ^ 1075)⁻¹ := by
      gcongr <;> norm_num
    _ = 2 ^ (-1075 : Int) := rfl

theorem Rounds.of_high {digits : Nat} {exponent place : Int} (digitsLow : 10 ^ place ≤ (digits : ℚ))
    (high : 400 ≤ place + exponent) : Rounds (digits * 10 ^ exponent) Binary64.infinity := by
  apply Rounds.infinity (le_trans (bound_le_of_power high) _)
  rw [zpow_add₀ (by norm_num)]
  gcongr

theorem Rounds.of_low {digits : Nat} {exponent place : Int} (digitsHigh : (digits : ℚ) ≤ 10 ^ place)
    (low : place + exponent ≤ -400) : Rounds (digits * 10 ^ exponent) ⟨0⟩ := by
  apply Rounds.zero (by positivity) (le_trans _ (power_le_of_low low))
  rw [zpow_add₀ (by norm_num)]
  gcongr

theorem rounds_ofScientific {digits : Nat} (positive : 0 < digits) (exponent : Int) :
    Rounds (digits * 10 ^ exponent)
      (packed (UnpackedFloat.ofScientific Format.binary64 digits exponent)) := by
  have bits : Format.binary64.exponentBits = 11 := rfl
  rw [UnpackedFloat.ofScientific, dif_neg positive.ne', bits]
  split_ifs with high low nonneg
  · exact @Rounds.of_high digits exponent 0 (by exact_mod_cast positive) (by omega)
  · have bound : (digits : ℚ) ≤ 10 ^ ((digits.log2 + 1 : ℕ) : Int) := by
      rw [zpow_natCast]
      exact_mod_cast Nat.lt_log2_self.le.trans (Nat.pow_le_pow_left (by decide) _)
    exact Rounds.of_low bound (by omega)
  · have long : 2 ^ 52 ≤ digits <<< 53 * 10 ^ exponent.toNat := by
      rw [Nat.shiftLeft_eq]
      exact (by omega : 2 ^ 52 ≤ digits * 2 ^ 53).trans (Nat.le_mul_of_pos_right _ (by positivity))
    have product := @rounds_mul (digits <<< 53) (10 ^ exponent.toNat) (-53) 0
      (by rw [Nat.shiftLeft_eq]; positivity) (by positivity) long
    have value : ((digits <<< 53 : ℕ) : ℚ) * 2 ^ (-53 : Int) * ((10 ^ exponent.toNat : ℕ) * 2 ^ (0 : Int)) =
        digits * 10 ^ exponent := by
      have place : exponent = (exponent.toNat : Int) := by omega
      generalize exponent.toNat = count at place ⊢
      rw [place, Nat.shiftLeft_eq]
      push_cast
      norm_num
      ring
    rw [value] at product
    exact product
  · have quotient := @rounds_div digits (10 ^ (-exponent).toNat) 0 0 positive (by positivity)
    have value : (digits : ℚ) * 2 ^ (0 : Int) / ((10 ^ (-exponent).toNat : ℕ) * 2 ^ (0 : Int)) =
        digits * 10 ^ exponent := by
      have place : exponent = -((-exponent).toNat : Int) := by omega
      generalize (-exponent).toNat = count at place ⊢
      simp [place, div_eq_mul_inv]
    rw [value] at quotient
    exact quotient

theorem rounds_float {digits : Nat} (positive : 0 < digits) (negative : Bool) (exponent : Nat) :
    Rounds (digits * 10 ^ (if negative then -(exponent : Int) else exponent))
      (ofFloat (Float.ofScientific digits negative exponent)) := by
  rw [Float.ofScientific]
  by_cases fits : digits < 2 ^ 53 ∧ exponent ≤ 22
  · have inside : exponent < Float.exactlyRepresentablePowersOfTen.size := Nat.lt_succ_of_le fits.2
    obtain ⟨significand, scale, some, power, value⟩ := exists_unpack_powerOfTen inside
    have number := unpack_toFloat positive fits.1
    have log_le : digits.log2 ≤ 52 := Nat.le_of_lt_succ ((Nat.log2_lt positive.ne').mpr fits.1)
    have shifted :
        ((digits * 2 ^ (52 - digits.log2) : ℕ) : ℚ) * 2 ^ ((digits.log2 : Int) - 52) = digits := by
      rw [show (digits.log2 : Int) - 52 = -((52 - digits.log2 : ℕ) : Int) by omega, zpow_neg, zpow_natCast]
      push_cast
      exact mul_inv_cancel_right₀ (by positivity) _
    rw [dif_pos fits]
    cases negative with
    | false =>
      refine @Rounds.ofFloat _ (UnpackedFloat.mul _ _ _) ?_
      rw [number, power, if_neg Bool.false_ne_true, zpow_natCast, ← shifted, ← value]
      exact rounds_mul _ _ ((shifted_bounds positive fits.1).1.trans (Nat.le_mul_of_pos_right _ some))
    | true =>
      refine @Rounds.ofFloat _ (UnpackedFloat.div _ _ _) ?_
      rw [number, power, if_pos rfl, zpow_neg, zpow_natCast, ← div_eq_mul_inv, ← shifted, ← value]
      exact rounds_div ..
  · rw [dif_neg fits]
    refine @Rounds.ofFloat _ (UnpackedFloat.ofScientific _ _ _) ?_
    cases negative with
    | false => exact rounds_ofScientific positive exponent
    | true =>
      rw [if_pos rfl, if_pos rfl, Int.negOfNat_eq]
      exact rounds_ofScientific positive (-(exponent : Int))

end Decimals

end Keystroke.Binary64

namespace Keystroke.Decimal

open Keystroke.Binary64 (Rounds)

theorem digits_bounds {digits : Nat} (positive : 0 < digits) :
    (10 : ℚ) ^ (((Nat.toDigits 10 digits).length : Int) - 1) ≤ digits ∧
      (digits : ℚ) ≤ 10 ^ ((Nat.toDigits 10 digits).length : Int) := by
  have length_pos : 0 < (Nat.toDigits 10 digits).length := Nat.length_toDigits_pos
  have high : digits < 10 ^ (Nat.toDigits 10 digits).length :=
    (Nat.length_toDigits_le_iff (by decide) length_pos).mp le_rfl
  have low : 10 ^ ((Nat.toDigits 10 digits).length - 1) ≤ digits := by
    by_contra less
    rcases Nat.eq_zero_or_pos ((Nat.toDigits 10 digits).length - 1) with one | more
    · rw [one] at less
      omega
    · have := (Nat.length_toDigits_le_iff (by decide) more).mpr (Nat.lt_of_not_le less)
      omega
  constructor
  · rw [show ((Nat.toDigits 10 digits).length : Int) - 1 = (((Nat.toDigits 10 digits).length - 1 : ℕ) : Int)
      by omega, zpow_natCast]
    exact_mod_cast low
  · rw [zpow_natCast]
    exact_mod_cast high.le

/-- The number nearest to a decimal number, an infinity where that is out of range. -/
theorem rounds_nearest (digits : Nat) (exponent : Int) :
    Rounds (digits * 10 ^ exponent) (nearest digits exponent) := by
  have zero : (0 : Binary64) = ⟨0⟩ := by decide +kernel
  rw [nearest]
  rcases Nat.eq_zero_or_pos digits with rfl | positive
  · rw [if_pos rfl, zero]
    exact Rounds.zero (by simp) (by simp)
  · obtain ⟨low, high⟩ := digits_bounds positive
    rw [if_neg positive.ne']
    split_ifs with large small
    · exact Rounds.of_high low (by omega)
    · rw [zero]
      exact Rounds.of_low high (by omega)
    · have rounds := Binary64.rounds_float positive (decide (exponent < 0)) exponent.natAbs
      have same : (if decide (exponent < 0) then -(exponent.natAbs : Int) else exponent.natAbs) =
          exponent := by
        by_cases negative : exponent < 0 <;> simp only [negative, decide_true, decide_false, if_true,
          Bool.false_eq_true, if_false] <;> omega
      rwa [same] at rounds

end Keystroke.Decimal
