import Mathlib
import Keystroke.Proofs.NumberOrder

/-!
# Rounding to the nearest number

A significand with two bits behind it is rounded once: to the nearest number, of two equally near ones to the
one with the even significand, and from half a unit beyond the largest finite number on to an infinity.
-/

namespace Keystroke.Binary64

open Float.Model (Format UnpackedFloat)
open Float.Model.UnpackedFloat (Accuracy ExtendedMantissa Sign)

/-- The rational number that a finite number is. -/
def toRat (x : Binary64) : ℚ := (if x.isNegative then -1 else 1) * (x.significand * 2 ^ x.scale)

/-- `x` is the rational number `q` rounded to nearest, ties to even. -/
structure Rounds (q : ℚ) (x : Binary64) : Prop where
  isFinite_iff : x.isFinite = true ↔ |q| < 2 ^ 1024 - 2 ^ 970
  isNaN_eq : x.isNaN = false
  nearest : x.isFinite = true → ∀ y : Binary64, y.isFinite = true → |q - x.toRat| ≤ |q - y.toRat|
  even : x.isFinite = true → ∀ y : Binary64, y.isFinite = true → |q - x.toRat| = |q - y.toRat| →
    y.toRat ≠ x.toRat → x.significand % 2 = 0
  isNegative_iff : q ≠ 0 → (x.isNegative = true ↔ q < 0)

/-! ## Digits behind the last one -/

/-- A significand with the two bits behind it describes the numbers it can have come from: the round bit is
worth a half, and the sticky bit says that something less than a half is left over. -/
def Describes (extended : ExtendedMantissa) (v : ℚ) : Prop :=
  let known : ℚ := extended.mantissa + if extended.roundBit then 1 / 2 else 0
  if extended.stickyBit then known < v ∧ v < known + 1 / 2 else v = known

theorem Describes.shiftRightOne {extended : ExtendedMantissa} {v : ℚ} (describes : Describes extended v) :
    Describes extended.shiftRightOne (v / 2) := by
  obtain ⟨significand, roundBit, stickyBit⟩ := extended
  have halves : (significand : ℚ) = 2 * (significand / 2 : ℕ) + (significand % 2 : ℕ) := by
    exact_mod_cast (Nat.div_add_mod significand 2).symm
  rcases Nat.mod_two_eq_zero_or_one significand with parity | parity <;>
    cases roundBit <;> cases stickyBit <;>
    simp only [Describes, ExtendedMantissa.shiftRightOne, parity, Bool.or_true, Bool.or_false,
      Bool.false_eq_true, if_true, if_false, bne_self_eq_false, Nat.cast_zero, Nat.cast_one,
      bne_iff_ne, ne_eq, one_ne_zero, not_false_eq_true, add_zero] at describes halves ⊢ <;>
    first
      | exact ⟨by linarith [describes.1], by linarith [describes.2]⟩
      | exact ⟨by linarith, by linarith⟩
      | linarith

theorem shiftRight_zero (extended : ExtendedMantissa) : extended >>> 0 = extended := rfl

theorem shiftRight_succ (extended : ExtendedMantissa) (count : Nat) :
    extended >>> (count + 1) = (extended >>> count).shiftRightOne := rfl

theorem Describes.shiftRight {extended : ExtendedMantissa} {v : ℚ} (describes : Describes extended v)
    (count : Nat) : Describes (extended >>> count) (v / 2 ^ count) := by
  induction count with
  | zero => simpa [shiftRight_zero] using describes
  | succ count earlier =>
    rw [shiftRight_succ, pow_succ, ← div_div]
    exact earlier.shiftRightOne

theorem mantissa_shiftRight (extended : ExtendedMantissa) (count : Nat) :
    (extended >>> count).mantissa = extended.mantissa / 2 ^ count := by
  induction count with
  | zero => simp [shiftRight_zero]
  | succ count earlier =>
    rw [shiftRight_succ, pow_succ, ← Nat.div_div_eq_div_mul, ← earlier]
    rfl

theorem Describes.bounds {extended : ExtendedMantissa} {v : ℚ} (describes : Describes extended v) :
    (extended.mantissa : ℚ) ≤ v ∧ v < extended.mantissa + 1 := by
  obtain ⟨significand, roundBit, stickyBit⟩ := extended
  cases roundBit <;> cases stickyBit <;>
    simp only [Describes, Bool.false_eq_true, if_true, if_false, add_zero] at describes ⊢ <;>
    first
      | exact ⟨by linarith [describes.1], by linarith [describes.2]⟩
      | exact ⟨by linarith, by linarith⟩

/-- A natural number nearest to `v`, the even one of two. -/
def IsNearest (n : Nat) (v : ℚ) : Prop := |v - n| ≤ 1 / 2 ∧ (|v - n| = 1 / 2 → n % 2 = 0)

theorem Describes.isNearest {extended : ExtendedMantissa} {v : ℚ} (describes : Describes extended v) :
    IsNearest extended.roundedMantissa v := by
  obtain ⟨significand, roundBit, stickyBit⟩ := extended
  cases roundBit <;> cases stickyBit <;>
    simp only [Describes, Bool.false_eq_true, if_true, if_false, add_zero] at describes <;>
    simp only [IsNearest, ExtendedMantissa.roundedMantissa, ExtendedMantissa.accuracy,
      Accuracy.roundToNearestEven]
  · simp [describes]
  · have positive : 0 < v - significand := by linarith [describes.1]
    rw [abs_of_pos positive]
    exact ⟨by linarith [describes.2], fun half => absurd half (by linarith [describes.2])⟩
  · rcases Nat.mod_two_eq_zero_or_one significand with parity | parity
    · simp [describes, parity, abs_of_pos]
    · have above : v - ((significand + 1 : ℕ) : ℚ) = -(1 / 2) := by push_cast; linarith
      rw [parity, above]
      norm_num
      omega
  · have negative : v - ((significand + 1 : ℕ) : ℚ) < 0 := by push_cast; linarith [describes.2]
    rw [abs_of_neg negative]
    push_cast
    exact ⟨by linarith [describes.1], fun half => absurd half (by linarith [describes.1])⟩

theorem IsNearest.le {n : Nat} {v : ℚ} (nearest : IsNearest n v) (k : ℤ) :
    |v - n| ≤ |v - k| ∧ (|v - n| = |v - k| → k ≠ n → n % 2 = 0) := by
  obtain ⟨near, even⟩ := nearest
  rcases eq_or_ne k n with rfl | other
  · exact ⟨by simp, fun _ differs => absurd rfl differs⟩
  · have apart : (1 : ℚ) ≤ |(k : ℚ) - n| := by exact_mod_cast Int.one_le_abs (sub_ne_zero.mpr other)
    have triangle : |(k : ℚ) - n| ≤ |v - n| + |v - k| := by
      have split : (k : ℚ) - n = (v - n) - (v - k) := by ring
      rw [split]
      exact abs_sub _ _
    exact ⟨by linarith, fun same _ => even (by linarith)⟩

/-! ## Packed numbers -/

/-- The number that an unpacked one is packed to. -/
def packed (unpacked : UnpackedFloat) : Binary64 :=
  ⟨UInt64.ofBitVec (UnpackedFloat.pack Format.binary64 unpacked)⟩

theorem toNat_packed (unpacked : UnpackedFloat) :
    (packed unpacked).bits.toNat = (UnpackedFloat.pack Format.binary64 unpacked).toNat := rfl

/-- A significand of the right length keeps its place when it is packed. -/
theorem fields_packed {significand : Nat} {scale : Int} (positive : 0 < significand)
    (short : significand < 2 ^ 53) (low : -1074 ≤ scale) (high : scale ≤ 971)
    (normal : scale = -1074 ∨ 2 ^ 52 ≤ significand) :
    let x := packed (.finite .positive significand scale positive)
    x.isNegative = false ∧ x.biasedExponent ≠ 2047 ∧ x.significand = significand ∧ x.scale = scale := by
  intro x
  have bits : x.bits.toNat =
      if 2 ^ 52 ≤ significand then (scale + 1075).toNat * 2 ^ 52 + significand % 2 ^ 52
      else significand := by
    have bias : (Format.binary64.exponentBias : Int) = 1023 := rfl
    have digits : Format.binary64.mantissaBits = 53 := rfl
    have sign : Sign.positive.toBitVec.toNat = 0 := rfl
    rw [toNat_packed, UnpackedFloat.pack]
    dsimp only
    rw [bias, digits]
    by_cases full : 2 ^ 52 ≤ significand
    · have log : significand.log2 = 52 := (Nat.log2_eq_iff positive.ne').mpr ⟨full, short⟩
      rw [if_neg (by omega), if_pos (by omega), toNat_packComponents, if_pos full, BitVec.toNat_ofNat,
        BitVec.toNat_ofNat, sign, Nat.mod_eq_of_lt (by omega)]
      congr 2
      omega
    · have log : significand.log2 < 52 := (Nat.log2_lt positive.ne').mpr (by omega)
      rw [if_neg (by omega), if_neg (by omega), toNat_packComponents, if_neg full, BitVec.toNat_ofNat,
        BitVec.toNat_ofNat, sign, Nat.mod_eq_of_lt (by omega)]
      omega
  have exponent := x.biasedExponent_eq
  have fraction := x.fraction_eq
  have hidden : hiddenBit = 2 ^ 52 := by decide
  rw [isNegative_eq, Binary64.significand, Binary64.scale, decide_eq_false_iff_not, hidden]
  split at bits
  · have place : x.biasedExponent = (scale + 1075).toNat := by omega
    rw [if_neg (by omega), if_neg (by omega)]
    omega
  · rw [if_pos (by omega), if_pos (by omega)]
    omega

/-- From the scale 972 on a number is packed to the infinity. -/
theorem packed_eq_infinity {significand : Nat} {scale : Int} (positive : 0 < significand)
    (high : 972 ≤ scale) : packed (.finite .positive significand scale positive) = infinity := by
  have bias : (Format.binary64.exponentBias : Int) = 1023 := rfl
  apply ext_toNat
  rw [toNat_packed, UnpackedFloat.pack]
  dsimp only
  rw [bias, if_pos (by omega)]
  rfl

/-! ## The grid of the numbers -/

section Grid

variable {q : ℚ} {scale : Int} {n : Nat}

theorem mul_div_scale (q : ℚ) (scale : Int) : q / 2 ^ scale * 2 ^ scale = q :=
  div_mul_cancel₀ q (zpow_ne_zero scale two_ne_zero)

theorem abs_sub_scaled (q r : ℚ) (scale : Int) :
    |q - r * 2 ^ scale| = |q / 2 ^ scale - r| * 2 ^ scale := by
  have positive : (0 : ℚ) < 2 ^ scale := zpow_pos two_pos scale
  rw [← abs_of_pos positive, ← abs_mul, abs_of_pos positive, sub_mul, mul_div_scale]

theorem abs_toRat_lt (y : Binary64) : |y.toRat| < 2 ^ 53 * 2 ^ y.scale := by
  have positive : (0 : ℚ) < 2 ^ y.scale := zpow_pos two_pos y.scale
  have short : (y.significand : ℚ) < 2 ^ 53 := by exact_mod_cast y.significand_lt
  have sign : |(if y.isNegative then -1 else 1 : ℚ)| = 1 := by split <;> norm_num
  rw [toRat, abs_mul, sign, one_mul, abs_of_nonneg (by positivity)]
  exact mul_lt_mul_of_pos_right short positive

theorem exists_toRat_eq (y : Binary64) (le : scale ≤ y.scale) : ∃ k : ℤ, y.toRat = k * 2 ^ scale := by
  obtain ⟨shift, same⟩ := Int.eq_ofNat_of_zero_le (sub_nonneg.mpr le)
  refine ⟨(if y.isNegative then -1 else 1) * (y.significand * 2 ^ shift), ?_⟩
  rw [toRat, show y.scale = scale + shift by omega, zpow_add₀ two_ne_zero, zpow_natCast]
  push_cast
  split <;> ring

/-- No number is nearer than the nearest multiple of the last place, as where the places are finer all
numbers are smaller. -/
theorem le_abs_sub_toRat (normal : scale = -1074 ∨ 2 ^ 52 ≤ q / 2 ^ scale)
    (nearest : IsNearest n (q / 2 ^ scale)) (y : Binary64) :
    |q - n * 2 ^ scale| ≤ |q - y.toRat| ∧
      (|q - n * 2 ^ scale| = |q - y.toRat| → y.toRat ≠ n * 2 ^ scale → n % 2 = 0) := by
  have positive : (0 : ℚ) < 2 ^ scale := zpow_pos two_pos scale
  rcases le_or_gt scale y.scale with le | finer
  · obtain ⟨k, same⟩ := y.exists_toRat_eq le
    obtain ⟨near, even⟩ := nearest.le k
    rw [same, abs_sub_scaled, abs_sub_scaled]
    refine ⟨mul_le_mul_of_nonneg_right near positive.le, fun equal differs => even ?_ ?_⟩
    · exact mul_right_cancel₀ positive.ne' equal
    · rintro rfl
      exact differs (by norm_cast)
  · have large : 2 ^ 52 ≤ q / 2 ^ scale := normal.resolve_left (by have := y.scale_eq; omega)
    have below : y.toRat < 2 ^ 52 * 2 ^ scale :=
      calc
        y.toRat ≤ |y.toRat| := le_abs_self _
        _ < 2 ^ 53 * 2 ^ y.scale := y.abs_toRat_lt
        _ = 2 ^ 52 * 2 ^ (y.scale + 1) := by rw [zpow_add_one₀ two_ne_zero]; ring
        _ ≤ 2 ^ 52 * 2 ^ scale :=
          mul_le_mul_of_nonneg_left (zpow_le_zpow_right₀ one_le_two (by omega)) (by norm_num)
    have reached : 2 ^ 52 * 2 ^ scale ≤ q := by
      rw [← mul_div_scale q scale]
      exact mul_le_mul_of_nonneg_right large positive.le
    have nearer : |q - n * 2 ^ scale| < |q - y.toRat| :=
      calc
        |q - n * 2 ^ scale| = |q / 2 ^ scale - n| * 2 ^ scale := abs_sub_scaled q n scale
        _ ≤ |q / 2 ^ scale - (2 ^ 52 : ℕ)| * 2 ^ scale :=
          mul_le_mul_of_nonneg_right (by exact_mod_cast (nearest.le (2 ^ 52 : ℕ)).1) positive.le
        _ = |q - 2 ^ 52 * 2 ^ scale| := by rw [abs_sub_scaled]; norm_cast
        _ = q - 2 ^ 52 * 2 ^ scale := abs_of_nonneg (by linarith)
        _ < q - y.toRat := by linarith
        _ ≤ |q - y.toRat| := le_abs_self _
    exact ⟨nearer.le, fun equal => absurd equal nearer.ne⟩

theorem IsNearest.le_of_lt {v : ℚ} {limit : Nat} (nearest : IsNearest n v) (lt : v < limit) : n ≤ limit := by
  by_contra beyond
  have next : (limit : ℚ) + 1 ≤ n := by exact_mod_cast Nat.lt_of_not_le beyond
  have := (abs_le.mp nearest.1).1
  linarith

theorem IsNearest.le_of_le {v : ℚ} {limit : Nat} (nearest : IsNearest n v) (le : limit ≤ v) : limit ≤ n := by
  by_contra below
  have next : (n : ℚ) + 1 ≤ limit := by exact_mod_cast Nat.lt_of_not_le below
  have := (abs_le.mp nearest.1).2
  linarith

/-- Beyond the largest significand a half is enough to be rounded up. -/
theorem IsNearest.eq_iff {v : ℚ} {limit : Nat} (nearest : IsNearest n v) (odd : limit % 2 = 0)
    (lt : v < limit) : n = limit ↔ limit - 1 / 2 ≤ v := by
  obtain ⟨near, even⟩ := nearest
  constructor
  · rintro rfl
    have := (abs_le.mp near).1
    linarith
  · intro half
    have le := IsNearest.le_of_lt ⟨near, even⟩ lt
    by_contra other
    have next : (n : ℚ) + 1 ≤ limit := by exact_mod_cast Nat.lt_of_le_of_ne le other
    have far : |v - n| = 1 / 2 := le_antisymm near (le_trans (by linarith) (le_abs_self _))
    have close : v - n ≤ 1 / 2 := (abs_le.mp near).2
    have successor : n + 1 = limit := by
      have : (n : ℚ) + 1 = limit := by linarith
      exact_mod_cast this
    have := even far
    omega

end Grid

/-! ## Rounded numbers -/

section Rounded

variable {q : ℚ} {scale : Int} {n : Nat} {x : Binary64}

theorem Rounds.of_finite (unsigned : 0 ≤ q) (bound : q < 2 ^ 1024 - 2 ^ 970)
    (positive : x.isNegative = false) (finite : x.biasedExponent ≠ 2047)
    (same : x.toRat = n * 2 ^ scale) (even : n % 2 = 0 → x.significand % 2 = 0)
    (normal : scale = -1074 ∨ 2 ^ 52 ≤ q / 2 ^ scale) (nearest : IsNearest n (q / 2 ^ scale)) :
    Rounds q x where
  isFinite_iff := by simp [isFinite, finite, abs_of_nonneg unsigned, bound]
  isNaN_eq := by simp [isNaN, finite]
  nearest := fun _ y _ => by
    rw [same]
    exact (le_abs_sub_toRat normal nearest y).1
  even := fun _ y _ equal differs => by
    rw [same] at equal differs
    exact even ((le_abs_sub_toRat normal nearest y).2 equal differs)
  isNegative_iff := fun _ => by simp [positive, unsigned]

theorem one_lt_bound : (1 : ℚ) < 2 ^ 1024 - 2 ^ 970 := by
  have least : (1 : ℚ) ≤ 2 ^ 970 := one_le_pow₀ one_le_two
  have more : (2 : ℚ) ^ 970 * 2 ^ 2 ≤ 2 ^ 1024 := by
    rw [← pow_add]
    exact pow_le_pow_right₀ one_le_two (by decide)
  generalize (2 : ℚ) ^ 970 = unit at least more ⊢
  generalize (2 : ℚ) ^ 1024 = power at more ⊢
  linarith

theorem Rounds.infinity (bound : 2 ^ 1024 - 2 ^ 970 ≤ q) : Rounds q infinity where
  isFinite_iff := by
    have positive : (0 : ℚ) ≤ q := le_trans (zero_le_one.trans one_lt_bound.le) bound
    have infinite : Binary64.infinity.isFinite = false := by decide
    rw [infinite, abs_of_nonneg positive]
    exact ⟨nofun, fun below => absurd below (not_lt.mpr bound)⟩
  isNaN_eq := by decide
  nearest := fun finite => absurd finite (by decide)
  even := fun finite => absurd finite (by decide)
  isNegative_iff := fun _ => by
    have positive : (0 : ℚ) ≤ q := le_trans (zero_le_one.trans one_lt_bound.le) bound
    have unsigned : Binary64.infinity.isNegative = false := by decide
    simp [unsigned, positive]

theorem Rounds.zero (unsigned : 0 ≤ q) (small : q ≤ 2 ^ (-1075 : Int)) : Rounds q ⟨0⟩ := by
  have nearest : IsNearest 0 (q / 2 ^ (-1074 : Int)) := by
    have half : q / 2 ^ (-1074 : Int) ≤ 1 / 2 := by
      rw [div_le_iff₀ (by positivity)]
      refine le_trans small (le_of_eq ?_)
      rw [show (-1074 : Int) = -1075 + 1 by rfl, zpow_add_one₀ two_ne_zero]
      ring
    rw [IsNearest, Nat.cast_zero, sub_zero, abs_of_nonneg (by positivity)]
    exact ⟨half, fun _ => rfl⟩
  have bound : q < 2 ^ 1024 - 2 ^ 970 :=
    calc
      q ≤ 2 ^ (-1075 : Int) := small
      _ ≤ 1 := zpow_le_one_of_nonpos₀ one_le_two (by decide)
      _ < 2 ^ 1024 - 2 ^ 970 := one_lt_bound
  have none : (⟨0⟩ : Binary64).significand = 0 := by decide
  apply Rounds.of_finite unsigned bound (by decide) (by decide) _ _ (.inl rfl) nearest
  · simp [toRat, none]
  · exact fun _ => by rw [none]

/-- Negating a number changes its sign bit only. -/
theorem fields_neg (x : Binary64) : (-x).isNegative = !x.isNegative ∧
    (-x).biasedExponent = x.biasedExponent ∧ (-x).fraction = x.fraction := by
  have bound := x.bits.toNat_lt
  have flipped : (-x).bits.toNat = x.bits.toNat ^^^ 2 ^ 63 := UInt64.toNat_xor ..
  have quotient : (-x).bits.toNat / 2 ^ 63 = 1 - x.bits.toNat / 2 ^ 63 := by
    rw [flipped, Nat.xor_div_two_pow, Nat.div_self (by decide)]
    have small : x.bits.toNat / 2 ^ 63 < 2 := by omega
    interval_cases x.bits.toNat / 2 ^ 63 <;> rfl
  have remainder : (-x).bits.toNat % 2 ^ 63 = x.bits.toNat % 2 ^ 63 := by
    rw [flipped, Nat.xor_mod_two_pow, Nat.mod_self, Nat.xor_zero]
  rw [isNegative_eq, isNegative_eq, biasedExponent_eq, biasedExponent_eq, fraction_eq, fraction_eq,
    Bool.eq_not, ne_eq, decide_eq_decide]
  omega

theorem isFinite_neg (x : Binary64) : (-x).isFinite = x.isFinite := by
  rw [isFinite, x.fields_neg.2.1, isFinite]

theorem significand_neg (x : Binary64) : (-x).significand = x.significand := by
  obtain ⟨-, exponent, fraction⟩ := x.fields_neg
  rw [significand, exponent, fraction, significand]

theorem toRat_neg (x : Binary64) : (-x).toRat = -x.toRat := by
  obtain ⟨sign, exponent, -⟩ := x.fields_neg
  have scale : (-x).scale = x.scale := by rw [Binary64.scale, exponent, Binary64.scale]
  rw [toRat, toRat, sign, significand_neg, scale]
  cases x.isNegative <;> simp

theorem Rounds.neg (rounds : Rounds q x) : Rounds (-q) (-x) := by
  obtain ⟨sign, exponent, fraction⟩ := x.fields_neg
  have own : |-q - (-x).toRat| = |q - x.toRat| := by
    rw [toRat_neg, ← abs_neg]
    congr 1
    ring
  have mirrored (y : Binary64) : |-q - y.toRat| = |q - (-y).toRat| := by
    rw [toRat_neg, ← abs_neg]
    congr 1
    ring
  constructor
  · rw [isFinite_neg, abs_neg]
    exact rounds.isFinite_iff
  · rw [isNaN, exponent, fraction]
    exact rounds.isNaN_eq
  · intro finite y yFinite
    rw [isFinite_neg] at finite
    rw [own, mirrored]
    exact rounds.nearest finite (-y) (by rwa [isFinite_neg])
  · intro finite y yFinite equal differs
    rw [isFinite_neg] at finite
    rw [own, mirrored] at equal
    rw [significand_neg]
    apply rounds.even finite (-y) (by rwa [isFinite_neg]) equal
    intro same
    apply differs
    rw [toRat_neg, ← same, toRat_neg, neg_neg]
  · intro nonzero
    have nonzero : q ≠ 0 := neg_ne_zero.mp nonzero
    rw [sign, Bool.not_eq_true', ← Bool.not_eq_true, rounds.isNegative_iff nonzero, not_lt, neg_lt_zero]
    exact ⟨fun le => lt_of_le_of_ne le (Ne.symm nonzero), le_of_lt⟩

/-- The scale that a significand is shifted to: the one that leaves it fifty-three digits, or the least. -/
theorem targetExponent_eq (significand : Nat) (scale : Int) :
    Format.binary64.targetExponent (Float.Model.totalExponent significand scale) =
      max (significand.log2 + 1 + scale - 53) (-1074) := rfl

/-- What the rounded significand is packed to: it takes one digit more only if it is a power of two. -/
theorem packed_roundWithAccuracy {significand : Nat} {accuracy : Accuracy} {shift : Nat}
    (target : max (significand.log2 + 1 + scale - 53) (-1074) = scale + shift)
    (same : (ExtendedMantissa.ofMantissaAndAccuracy significand accuracy >>> shift).roundedMantissa = n)
    (le : n ≤ 2 ^ 53) :
    packed (UnpackedFloat.roundWithAccuracy Format.binary64 .positive significand scale accuracy) =
      if none : n = 0 then ⟨0⟩
      else if n = 2 ^ 53 then packed (.finite .positive (2 ^ 52) (scale + shift + 1) (by decide))
      else packed (.finite .positive n (scale + shift) (Nat.pos_of_ne_zero none)) := by
  have first : (scale + shift - scale).toNat = shift := by omega
  simp only [UnpackedFloat.roundWithAccuracy, UnpackedFloat.shiftToTargetExponent,
    UnpackedFloat.shiftToExponent, targetExponent_eq, target, first, same]
  have second : (max (n.log2 + 1 + (scale + shift) - 53) (-1074) - (scale + shift)).toNat =
      if n = 2 ^ 53 then 1 else 0 := by
    split
    · next full =>
        have log : n.log2 = 53 := by rw [full, Nat.log2_two_pow]
        omega
    · next partly =>
        have log : n.log2 ≤ 52 := by
          rcases Nat.eq_zero_or_pos n with rfl | positive
          · simp
          · exact Nat.le_of_lt_succ ((Nat.log2_lt positive.ne').mpr (lt_of_le_of_ne le partly))
        omega
  simp only [second]
  split
  · next full => simp only [full]; rfl
  · simp only [shiftRight_zero, ExtendedMantissa.ofMantissaAndAccuracy, Nat.cast_zero, add_zero]
    split <;> rfl

/-- Half a unit beyond the largest finite number. -/
theorem bound_eq : ((2 : ℚ) ^ 53 - 1 / 2) * 2 ^ (971 : Int) = 2 ^ 1024 - 2 ^ 970 := by
  have largest : (2 : ℚ) ^ 53 * 2 ^ (971 : Int) = 2 ^ 1024 := by
    rw [← zpow_natCast, ← zpow_natCast, ← zpow_add₀ two_ne_zero]
    rfl
  have half : (1 : ℚ) / 2 * 2 ^ (971 : Int) = 2 ^ 970 := by
    rw [show (971 : Int) = (970 : ℕ) + 1 from rfl, zpow_add_one₀ two_ne_zero, zpow_natCast, mul_comm,
      mul_assoc, mul_one_div_cancel two_ne_zero, mul_one]
  rw [sub_mul, largest, half]

theorem lt_bound (high : scale ≤ 971) (below : q / 2 ^ scale < 2 ^ 53)
    (last : scale = 971 → q / 2 ^ scale < 2 ^ 53 - 1 / 2) : q < 2 ^ 1024 - 2 ^ 970 := by
  have positive (place : Int) : (0 : ℚ) < 2 ^ place := zpow_pos two_pos place
  rw [← bound_eq, ← mul_div_scale q scale]
  rcases eq_or_lt_of_le high with rfl | lower
  · exact mul_lt_mul_of_pos_right (last rfl) (positive 971)
  · calc
      q / 2 ^ scale * 2 ^ scale < 2 ^ 53 * 2 ^ scale := mul_lt_mul_of_pos_right below (positive scale)
      _ ≤ 2 ^ 53 * 2 ^ (970 : Int) :=
        mul_le_mul_of_nonneg_left (zpow_le_zpow_right₀ one_le_two (by omega)) (by norm_num)
      _ = 2 ^ 52 * 2 ^ (971 : Int) := by
        rw [show (971 : Int) = 970 + 1 from rfl, zpow_add_one₀ two_ne_zero]
        ring
      _ ≤ (2 ^ 53 - 1 / 2) * 2 ^ (971 : Int) := mul_le_mul_of_nonneg_right (by norm_num) (positive 971).le

theorem bound_le (high : 971 ≤ scale) (reached : 2 ^ 53 - 1 / 2 ≤ q / 2 ^ scale) :
    2 ^ 1024 - 2 ^ 970 ≤ q := by
  rw [← bound_eq, ← mul_div_scale q scale]
  exact mul_le_mul reached (zpow_le_zpow_right₀ one_le_two high) (by positivity)
    (le_trans (by norm_num) reached)

theorem toRat_packed {significand : Nat} (positive : 0 < significand) (short : significand < 2 ^ 53)
    (low : -1074 ≤ scale) (high : scale ≤ 971) (normal : scale = -1074 ∨ 2 ^ 52 ≤ significand) :
    (packed (.finite .positive significand scale positive)).toRat = significand * 2 ^ scale := by
  obtain ⟨sign, -, digits, place⟩ := fields_packed positive short low high normal
  rw [toRat, sign, digits, place]
  simp

theorem rounds_of_isNearest (unsigned : 0 ≤ q) (low : -1074 ≤ scale)
    (normal : scale = -1074 ∨ 2 ^ 52 ≤ q / 2 ^ scale) (below : q / 2 ^ scale < 2 ^ 53)
    (nearest : IsNearest n (q / 2 ^ scale)) :
    Rounds q (if none : n = 0 then ⟨0⟩
      else if n = 2 ^ 53 then packed (.finite .positive (2 ^ 52) (scale + 1) (by decide))
      else packed (.finite .positive n scale (Nat.pos_of_ne_zero none))) := by
  have full : n ≤ 2 ^ 53 := nearest.le_of_lt (by exact_mod_cast below)
  have long : scale = -1074 ∨ 2 ^ 52 ≤ n := normal.imp_right fun reached =>
    nearest.le_of_le (by exact_mod_cast reached)
  have up : n = 2 ^ 53 ↔ 2 ^ 53 - 1 / 2 ≤ q / 2 ^ scale := by
    exact_mod_cast @IsNearest.eq_iff _ _ (2 ^ 53) nearest rfl (by exact_mod_cast below)
  split
  · next none =>
      have least : scale = -1074 := long.resolve_right (by omega)
      have bits : (⟨0⟩ : Binary64).significand = 0 := by decide
      apply Rounds.of_finite unsigned (lt_bound (by omega) below (by omega)) (by decide) (by decide) _ _
        normal nearest
      · simp [toRat, bits, none]
      · exact fun _ => by rw [bits]
  · next some =>
      split
      · next power =>
          rcases le_or_gt 971 scale with high | high
          · rw [packed_eq_infinity _ (by omega)]
            exact Rounds.infinity (bound_le high (up.mp power))
          · obtain ⟨sign, finite, digits, -⟩ := @fields_packed (2 ^ 52) (scale + 1) (by decide)
               (by decide) (by omega) (by omega) (.inr le_rfl)
            apply Rounds.of_finite unsigned (lt_bound (by omega) below (by omega)) sign finite _ _
              normal nearest
            · rw [toRat_packed (by decide) (by decide) (by omega) (by omega) (.inr le_rfl),
                zpow_add_one₀ two_ne_zero, power]
              push_cast
              ring
            · exact fun _ => by rw [digits]; rfl
      · next partly =>
          have short : n < 2 ^ 53 := lt_of_le_of_ne full partly
          rcases le_or_gt 972 scale with high | high
          · have reached : 2 ^ 52 ≤ q / 2 ^ scale := normal.resolve_left (by omega)
            rw [packed_eq_infinity _ high]
            refine Rounds.infinity (@bound_le q (scale - 1) (by omega) ?_)
            rw [zpow_sub_one₀ two_ne_zero, ← div_div, div_inv_eq_mul]
            linarith
          · obtain ⟨sign, finite, digits, -⟩ := fields_packed (Nat.pos_of_ne_zero some) short low
              (by omega) long
            have last : scale = 971 → q / 2 ^ scale < 2 ^ 53 - 1 / 2 := fun _ =>
              lt_of_not_ge fun reached => partly (up.mpr reached)
            apply Rounds.of_finite unsigned (lt_bound (by omega) below last) sign finite _ _ normal nearest
            · exact toRat_packed _ short low (by omega) long
            · exact fun even => by rw [digits, even]

/-- A significand that describes a number, and has digits enough, is rounded as that number is. -/
theorem rounds_roundWithAccuracy {significand : Nat} {accuracy : Accuracy} (unsigned : 0 ≤ q)
    (describes : Describes (.ofMantissaAndAccuracy significand accuracy) (q / 2 ^ scale))
    (le : scale ≤ max (significand.log2 + 1 + scale - 53) (-1074)) :
    Rounds q (packed (UnpackedFloat.roundWithAccuracy Format.binary64 .positive significand scale
      accuracy)) := by
  obtain ⟨shift, difference⟩ := Int.eq_ofNat_of_zero_le (sub_nonneg.mpr le)
  have target : max (significand.log2 + 1 + scale - 53) (-1074) = scale + shift := by omega
  obtain ⟨extended, same⟩ : ∃ extended,
      extended = ExtendedMantissa.ofMantissaAndAccuracy significand accuracy >>> shift := ⟨_, rfl⟩
  have shifted : Describes extended (q / 2 ^ (scale + shift)) := by
    rw [zpow_add₀ two_ne_zero, zpow_natCast, ← div_div, same]
    exact describes.shiftRight shift
  have kept : extended.mantissa = significand / 2 ^ shift := by
    rw [same, mantissa_shiftRight]
    cases accuracy with
    | exact => rfl
    | inexact order => cases order <;> rfl
  have short : extended.mantissa < 2 ^ 53 := by
    rw [kept]
    apply Nat.div_lt_of_lt_mul
    calc
      significand < 2 ^ (significand.log2 + 1) := Nat.lt_log2_self
      _ ≤ 2 ^ (shift + 53) := Nat.pow_le_pow_right Nat.two_pos (by omega)
      _ = 2 ^ shift * 2 ^ 53 := Nat.pow_add ..
  have long : scale + shift = -1074 ∨ 2 ^ 52 ≤ extended.mantissa := by
    refine or_iff_not_imp_left.mpr fun above => ?_
    have log : significand.log2 = 52 + shift := by omega
    have positive : significand ≠ 0 := by
      rintro rfl
      rw [Nat.log2_zero] at log
      omega
    rw [kept, Nat.le_div_iff_mul_le (Nat.two_pow_pos shift), ← Nat.pow_add, ← log]
    exact Nat.log2_self_le positive
  obtain ⟨from_, upto⟩ := shifted.bounds
  have below : q / 2 ^ (scale + shift) < 2 ^ 53 := lt_of_lt_of_le upto (by exact_mod_cast short)
  have normal : scale + shift = -1074 ∨ 2 ^ 52 ≤ q / 2 ^ (scale + shift) :=
    long.imp_right fun reached => le_trans (by exact_mod_cast reached) from_
  have nearest := shifted.isNearest
  rw [packed_roundWithAccuracy target (by rw [same]) (nearest.le_of_lt (by exact_mod_cast below))]
  exact rounds_of_isNearest unsigned (by omega) normal below nearest

end Rounded

end Keystroke.Binary64
