/-!
# Binary64 numbers as bit patterns

A number is its sixty-four bits, so the sign and payload of a NaN are part of it.
The four operations and the square root round once, to nearest with ties to even; an operand that
is a NaN passes through unchanged but quiet, and an invalid operation gives the negative quiet NaN.
-/

namespace Keystroke

/-- A binary64 number, held as its bit pattern. -/
structure Binary64 where
  bits : UInt64
deriving DecidableEq, Inhabited

namespace Binary64

/-- The bit that carries the sign. -/
def signMask : UInt64 := 0x8000000000000000

/-- The biased exponent, between 0 and 2047. -/
def biasedExponent (x : Binary64) : Nat := ((x.bits >>> 52) &&& 0x7FF).toNat

/-- The fifty-two bits of the fraction. -/
def fraction (x : Binary64) : Nat := (x.bits &&& 0xFFFFFFFFFFFFF).toNat

def isNegative (x : Binary64) : Bool := x.bits &&& signMask != 0

def isNaN (x : Binary64) : Bool := x.biasedExponent == 2047 && x.fraction != 0

def isInfinite (x : Binary64) : Bool := x.biasedExponent == 2047 && x.fraction == 0

def isFinite (x : Binary64) : Bool := x.biasedExponent != 2047

/-- Plus or minus zero. -/
def isZero (x : Binary64) : Bool := x.bits &&& 0x7FFFFFFFFFFFFFFF == 0

/-- The bit in front of the fraction of a normal number, which is not stored: `2 ^ 52`. -/
def hiddenBit : Nat := 0x10000000000000

/-- A finite number is plus or minus `significand * 2 ^ scale`. -/
def significand (x : Binary64) : Nat :=
  if x.biasedExponent = 0 then x.fraction else hiddenBit + x.fraction

/-- A finite number is plus or minus `significand * 2 ^ scale`. -/
def scale (x : Binary64) : Int :=
  if x.biasedExponent = 0 then -1074 else (x.biasedExponent : Int) - 1075

/-- What an invalid operation gives. -/
def invalid : Binary64 := ⟨0xFFF8000000000000⟩

/-- The NaN that stands for "no number yet". -/
def undefined : Binary64 := ⟨0x7FF8000000000000⟩

def infinity : Binary64 := ⟨0x7FF0000000000000⟩

/-- The largest finite number. -/
def largest : Binary64 := ⟨0x7FEFFFFFFFFFFFFF⟩

/-- The quiet form of a NaN. -/
def quiet (x : Binary64) : Binary64 := ⟨x.bits ||| 0x0008000000000000⟩

/-- The result of an operation on numbers; where there is none it is `invalid`. -/
def ofFloat (x : Float) : Binary64 := if x.isNaN then invalid else ⟨x.toBits⟩

def toFloat (x : Binary64) : Float := Float.ofBits x.bits

/-- Apply an operation of one operand, letting a NaN pass. -/
def lift (operation : Float → Float) (x : Binary64) : Binary64 :=
  if x.isNaN then x.quiet else ofFloat (operation x.toFloat)

/-- Apply an operation of two operands, letting the first NaN pass. -/
def lift₂ (operation : Float → Float → Float) (x y : Binary64) : Binary64 :=
  if x.isNaN then x.quiet
  else if y.isNaN then y.quiet
  else ofFloat (operation x.toFloat y.toFloat)

instance : Add Binary64 := ⟨lift₂ (· + ·)⟩
instance : Sub Binary64 := ⟨lift₂ (· - ·)⟩
instance : Mul Binary64 := ⟨lift₂ (· * ·)⟩
instance : Div Binary64 := ⟨lift₂ (· / ·)⟩
instance : Neg Binary64 := ⟨fun x => ⟨x.bits ^^^ signMask⟩⟩
instance : OfScientific Binary64 :=
  ⟨fun digits negativeExponent exponent =>
    ofFloat (OfScientific.ofScientific digits negativeExponent exponent)⟩
instance {n : Nat} : OfNat Binary64 n := ⟨ofFloat (Float.ofNat n)⟩

/-- Numeric order: false whenever a NaN takes part. -/
instance : LT Binary64 := ⟨fun x y => x.toFloat < y.toFloat⟩
instance : LE Binary64 := ⟨fun x y => x.toFloat ≤ y.toFloat⟩
instance (x y : Binary64) : Decidable (x < y) := inferInstanceAs (Decidable (x.toFloat < y.toFloat))
instance (x y : Binary64) : Decidable (x ≤ y) := inferInstanceAs (Decidable (x.toFloat ≤ y.toFloat))

/-- Numeric equality: the two zeros are equal and a NaN equals nothing. -/
def equals (x y : Binary64) : Bool := x.toFloat == y.toFloat

def abs (x : Binary64) : Binary64 := ⟨x.bits &&& 0x7FFFFFFFFFFFFFFF⟩

def sqrt (x : Binary64) : Binary64 := lift Float.sqrt x

/-- Minus one for a negative sign, one otherwise; a NaN stays. -/
def signum (x : Binary64) : Binary64 := if x.isNaN then x else if x.isNegative then -1 else 1

/-- The smaller number, or the only one when the other is a NaN; of two zeros the second. -/
def minimum (x y : Binary64) : Binary64 := if y.isNaN || x < y then x else y

/-- The larger number, or the only one when the other is a NaN; of two zeros the second. -/
def maximum (x y : Binary64) : Binary64 := if y.isNaN || y < x then x else y

/-- The number without its digits after the point, sign kept. -/
def truncate (x : Binary64) : Binary64 :=
  if x.biasedExponent < 1023 then ⟨x.bits &&& signMask⟩
  else if x.biasedExponent < 1075 then
    let dropped := 1075 - x.biasedExponent
    ⟨(x.bits >>> dropped.toUInt64) <<< dropped.toUInt64⟩
  else x

/-- What truncation takes away. -/
def fractionalPart (x : Binary64) : Binary64 := x - x.truncate

/-- The greatest integral number that is not above `x`. -/
def floor (x : Binary64) : Binary64 :=
  let whole := x.truncate
  if x.isNegative && !x.equals whole then whole - 1 else whole

/-- The integral number nearest to `x`; a half goes away from zero. -/
def round (x : Binary64) : Binary64 :=
  let whole := x.truncate
  if (0.5 : Binary64) ≤ (x - whole).abs then whole + x.signum else whole

/-- The magnitude of a finite number, its digits after the point dropped. -/
def wholePart (x : Binary64) : Nat :=
  if 0 ≤ x.scale then x.significand * Nat.pow 2 x.scale.toNat
  else x.significand / Nat.pow 2 (-x.scale).toNat

/-- The integer that a finite number equals, if it has no digits after the point. -/
def toInt? (x : Binary64) : Option Int :=
  if !x.isFinite then none
  else if 0 ≤ x.scale ∨ x.significand % Nat.pow 2 (-x.scale).toNat = 0 then
    some (if x.isNegative then -(x.wholePart : Int) else x.wholePart)
  else none

/-- The natural number below `x`, clamped to `0` and `limit`; a NaN counts as zero. -/
def toNatUpTo (limit : Nat) (x : Binary64) : Nat :=
  if x.isNaN || x.isNegative then 0
  else if x.isInfinite then limit
  else min limit x.wholePart

/-- The integer next to `x` toward zero, clamped to thirty-two signed bits; a NaN counts as zero. -/
def toInt32 (x : Binary64) : Int :=
  if x.isNaN then 0
  else if x.isNegative then
    if x.isInfinite then -2147483648 else -(min 2147483648 x.wholePart : Nat)
  else if x.isInfinite then 2147483647 else (min 2147483647 x.wholePart : Nat)

/-- A natural number; from `2 ^ 53` on it is rounded to nearest. -/
def ofNat (n : Nat) : Binary64 :=
  if n = 0 then ⟨0⟩
  else if n < 2 * hiddenBit then
    ⟨((1023 + n.log2) * hiddenBit + (n * Nat.pow 2 (52 - n.log2) - hiddenBit)).toUInt64⟩
  else ofFloat (Float.ofNat n)

/-- An integer, rounded like `ofNat`. -/
def ofInt (n : Int) : Binary64 := if n < 0 then -ofNat n.natAbs else ofNat n.natAbs

/-- Raise to a natural power by repeated squaring, the lowest bit of the exponent first. -/
def powNat (x : Binary64) (exponent : Nat) : Binary64 :=
  go x 1 exponent
where
  go (square product : Binary64) (exponent : Nat) : Binary64 :=
    let product := if exponent % 2 = 1 then product * square else product
    if exponent / 2 = 0 then product else go (square * square) product (exponent / 2)
  termination_by exponent

/-- Raise to an integer power; a negative one is the reciprocal of the positive. -/
def powInt (x : Binary64) (exponent : Int) : Binary64 :=
  if exponent < 0 then 1 / x.powNat exponent.natAbs else x.powNat exponent.natAbs

end Binary64

end Keystroke
