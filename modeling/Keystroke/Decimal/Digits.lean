import Keystroke.Binary64

/-!
# Decimal digits of a binary number

Two selections from the exact value `significand * 2 ^ scale`, both in exact natural arithmetic:
the fewest digits that identify the number, and the digits down to a fixed place.
-/

namespace Keystroke

/-- The decimal number `digits * 10 ^ exponent`. -/
structure Decimal where
  digits : Nat
  exponent : Int
deriving DecidableEq, Repr, Inhabited

namespace Decimal

/-- The positive number `significand * 2 ^ scale`; below a power of two the gap to the next smaller
number is only half as wide. -/
structure Magnitude where
  significand : Nat
  scale : Int
  narrowBelow : Bool

/-- The magnitude of a finite number. -/
def Magnitude.of (x : Binary64) : Magnitude :=
  ⟨x.significand, x.scale, x.fraction = 0 && x.biasedExponent > 1⟩

/-- Multiply by the power of two or ten when the exponent is positive, else leave alone. -/
def scaleUp (n : Nat) (two ten : Int) : Nat := n * Nat.pow 2 two.toNat * Nat.pow 10 ten.toNat

/-- Numerator and denominator of `significand * 2 ^ scale / 10 ^ place`. -/
def Magnitude.ratio (value : Magnitude) (place : Int) : Nat × Nat :=
  (scaleUp value.significand value.scale (-place), scaleUp 1 (-value.scale) place)

/-- Compare `n * 10 ^ place` with `m * 2 ^ scale`. -/
def compareScaled (n : Nat) (place : Int) (m : Nat) (scale : Int) : Ordering :=
  compare (scaleUp n (-scale) place) (scaleUp m scale (-place))

/-- Whether a decimal lies among the reals that are rounded to this number. -/
def Magnitude.identifiedBy (value : Magnitude) (decimal : Decimal) : Bool :=
  let low := if value.narrowBelow then 4 * value.significand - 1 else 4 * value.significand - 2
  let high := 4 * value.significand + 2
  let endsIncluded := value.significand % 2 = 0
  let againstLow := compareScaled decimal.digits decimal.exponent low (value.scale - 2)
  let againstHigh := compareScaled decimal.digits decimal.exponent high (value.scale - 2)
  (againstLow = .gt || (endsIncluded && againstLow = .eq)) &&
    (againstHigh = .lt || (endsIncluded && againstHigh = .eq))

/-- The least place whose power of ten exceeds the value. -/
def Magnitude.leadingPlace (value : Magnitude) : Int :=
  let estimate := (((value.significand.log2 : Int) + value.scale) * 30103) / 100000
  let exceeds (place : Int) : Bool := compareScaled 1 place value.significand value.scale = .gt
  if exceeds (estimate - 1) then estimate - 1
  else if exceeds estimate then estimate
  else if exceeds (estimate + 1) then estimate + 1
  else if exceeds (estimate + 2) then estimate + 2
  else estimate + 3

/-- Of the two neighbours with `count` digits, the one that identifies the value; of two the nearer,
of two equally near the greater. -/
def Magnitude.withDigits? (value : Magnitude) (leading : Int) (count : Nat) : Option Decimal :=
  let place := leading - count
  let (numerator, denominator) := value.ratio place
  let lower := numerator / denominator
  let belowFits := value.identifiedBy ⟨lower, place⟩
  let aboveFits := value.identifiedBy ⟨lower + 1, place⟩
  if belowFits && (!aboveFits || 2 * numerator < (2 * lower + 1) * denominator) then
    some ⟨lower, place⟩
  else if aboveFits then some ⟨lower + 1, place⟩
  else none

/-- Move trailing zeros of the digits into the exponent. -/
def stripZeros : Nat → Decimal → Decimal
  | 0, decimal => decimal
  | fuel + 1, decimal =>
    if decimal.digits ≠ 0 ∧ decimal.digits % 10 = 0 then
      stripZeros fuel ⟨decimal.digits / 10, decimal.exponent + 1⟩
    else decimal

/-- The shortest decimal that identifies a positive number; seventeen digits always suffice. -/
def Magnitude.shortest (value : Magnitude) : Decimal :=
  let leading := value.leadingPlace
  match (List.range 17).findSome? fun count => value.withDigits? leading (count + 1) with
  | some decimal => stripZeros 20 decimal
  | none => ⟨scaleUp value.significand value.scale 0 * Nat.pow 5 (-value.scale).toNat, min value.scale 0⟩

/-- A quotient rounded to nearest, an exact half going to the even neighbour. -/
def roundedQuotient (numerator denominator : Nat) : Nat :=
  let quotient := numerator / denominator
  let remainder := numerator % denominator
  if 2 * remainder < denominator then quotient
  else if 2 * remainder > denominator then quotient + 1
  else if quotient % 2 = 0 then quotient else quotient + 1

/-- The value in units of `10 ^ place`, rounded to nearest. -/
def Magnitude.roundedAt (value : Magnitude) (place : Int) : Nat :=
  let (numerator, denominator) := value.ratio place
  roundedQuotient numerator denominator

/-- The value rounded to a count of significant digits. -/
def Magnitude.significant (value : Magnitude) (count : Nat) : Decimal :=
  let place := value.leadingPlace - count
  let digits := value.roundedAt place
  if digits = Nat.pow 10 count then ⟨Nat.pow 10 (count - 1), place + 1⟩ else ⟨digits, place⟩

end Decimal

end Keystroke
