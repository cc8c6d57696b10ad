import Keystroke.Binary64

/-!
# Elementary functions of binary64 numbers

Logarithms, powers, circular and hyperbolic functions, the length of a vector and the gamma function.
-/

namespace Keystroke.Binary64

def pi : Binary64 := 3.141592653589793

/-- A power of two whose exponent a normal number can have. -/
def powerOfTwo (exponent : Int) : Binary64 := ⟨((1023 + exponent) * hiddenBit).toNat.toUInt64⟩

def exp (x : Binary64) : Binary64 := lift Float.exp x
def ln (x : Binary64) : Binary64 := lift Float.log x
def log10 (x : Binary64) : Binary64 := lift Float.log10 x
def sin (x : Binary64) : Binary64 := lift Float.sin x
def cos (x : Binary64) : Binary64 := lift Float.cos x
def tan (x : Binary64) : Binary64 := lift Float.tan x
def asin (x : Binary64) : Binary64 := lift Float.asin x
def acos (x : Binary64) : Binary64 := lift Float.acos x
def atan (x : Binary64) : Binary64 := lift Float.atan x

/-- The angle of the vector with the horizontal component `x` and the vertical component `y`. -/
def atan2 (y x : Binary64) : Binary64 := lift₂ Float.atan2 y x

/-- `x ^ y`, which is one when `y` is zero or `x` is one, even beside a NaN. -/
def pow (x y : Binary64) : Binary64 :=
  if y.isZero || x.equals 1 then 1 else lift₂ Float.pow x y

/-! ## The length of a vector -/

/-- The length of a vector whose squares neither overflow nor vanish: the root of the sum of squares,
corrected by a step of Newton's method for what the squares have lost. -/
def hypotNearOne (larger smaller : Binary64) : Binary64 :=
  let root := (larger * larger + smaller * smaller).sqrt
  let (first, second) :=
    if root ≤ 2 * smaller then
      let excess := root - smaller
      (larger * (2 * excess - larger), (excess - 2 * (larger - smaller)) * excess)
    else
      let excess := root - larger
      (2 * excess * (larger - 2 * smaller), (4 * excess - smaller) * smaller + excess * excess)
  root - (first + second) / (2 * root)

/-- A component that is smaller than the other one by this factor does not count. -/
def negligible : Binary64 := powerOfTwo (-54)

/-- Components that are far from one are brought near to it by this factor. -/
def nearingScale : Binary64 := powerOfTwo (-600)

/-- The length of a vector, free of overflow on the way; an infinite component wins over a NaN. -/
def hypot (x y : Binary64) : Binary64 :=
  if x.isInfinite || y.isInfinite then infinity
  else if x.isNaN || y.isNaN then x + y
  else
    let larger := if x.abs < y.abs then y.abs else x.abs
    let smaller := if x.abs < y.abs then x.abs else y.abs
    if powerOfTwo 511 < larger then
      if smaller ≤ larger * negligible then larger + smaller
      else hypotNearOne (larger * nearingScale) (smaller * nearingScale) / nearingScale
    else if smaller < powerOfTwo (-459) then
      if smaller / negligible ≤ larger then larger + smaller
      else hypotNearOne (larger / nearingScale) (smaller / nearingScale) * nearingScale
    else if smaller ≤ larger * negligible then larger + smaller
    else hypotNearOne larger smaller

/-! ## Logarithms near one

The argument of a logarithm is split into a power of two and a factor `1 + f` between the roots of one
half and of two. With `s = f / (2 + f)` the logarithm of the factor is `ln (1 + s) - ln (1 - s)`, an odd
function of `s` that a polynomial gives. -/

/-- The natural logarithm of two, cut off so that small multiples of it are exact. -/
def lnTwoHigh : Binary64 := 6.93147180369123816490e-01

/-- What `lnTwoHigh` lacks. -/
def lnTwoLow : Binary64 := 1.90821492927058770002e-10

/-- The sum `1 + x` as `2 ^ exponent * (1 + factor)`. -/
structure SplitSum where
  exponent : Int
  /-- The factor without its one. -/
  factor : Binary64
  /-- What rounding took from the sum, as a fraction of it. -/
  lost : Binary64
  /-- Whether the factor is so near to one that two terms of the series are enough. -/
  isShort : Bool

/-- Where the fraction of a number passes that of the root of two. -/
def rootOfTwoFraction : Nat := 0x6A09E00000000

/-- Split a sum that is away from one. -/
def splitSum (x : Binary64) : SplitSum :=
  let isRounded := decide (x < powerOfTwo 53)
  let sum := if isRounded then 1 + x else x
  let exponent := (sum.biasedExponent : Int) - 1023
  let lost :=
    if isRounded then (if 0 < exponent then 1 - (sum - x) else x - (sum - 1)) / sum else 0
  let leading := sum.fraction / 0x100000000
  if sum.fraction < rootOfTwoFraction then
    ⟨exponent, ⟨(1023 * hiddenBit + sum.fraction).toUInt64⟩ - 1, lost, leading = 0⟩
  else
    ⟨exponent + 1, ⟨(1022 * hiddenBit + sum.fraction).toUInt64⟩ - 1, lost,
      0x100000 - leading < 4⟩

/-- The polynomial in `z = s * s` for the logarithm of a factor. -/
def logarithmSeries (z : Binary64) : Binary64 :=
  let z2 := z * z
  let z4 := z2 * z2
  z * 6.666666666666735130e-01 + z2 * (3.999999999940941908e-01 + z * 2.857142874366239149e-01) +
    z4 * (2.222219843214978396e-01 + z * 1.818357216161805012e-01) +
    z4 * z2 * (1.531383769920937332e-01 + z * 1.479819860511658591e-01)

/-- The logarithm of a sum that was split. -/
def SplitSum.ln (split : SplitSum) : Binary64 :=
  let f := split.factor
  let times := ofInt split.exponent
  let halfSquare := 0.5 * f * f
  let low := times * lnTwoLow + split.lost
  if split.isShort then
    if f.isZero then
      if split.exponent = 0 then 0 else times * lnTwoHigh + (split.lost + times * lnTwoLow)
    else
      let rest := halfSquare * (1 - 0.66666666666666666 * f)
      if split.exponent = 0 then f - rest else times * lnTwoHigh - ((rest - low) - f)
  else
    let s := f / (2 + f)
    let series := s * (halfSquare + logarithmSeries (s * s))
    if split.exponent = 0 then f - (halfSquare - series)
    else times * lnTwoHigh - ((halfSquare - (series + low)) - f)

/-- `ln (1 + x)` without losing a small `x`. -/
def lnOnePlus (x : Binary64) : Binary64 :=
  if x.isNaN then x.quiet
  else if x < -1 then invalid
  else if x.equals (-1) then -infinity
  else if x.isInfinite then x
  else if x.abs < powerOfTwo (-54) then x
  else if x.abs < powerOfTwo (-29) then x - x * x * 0.5
  else if (⟨0xBFD2BEC400000000⟩ : Binary64) < x ∧ x < (⟨0x3FDA827A00000000⟩ : Binary64) then
    SplitSum.ln ⟨0, x, 0, false⟩
  else (splitSum x).ln

/-! ## Exponentials near zero

The exponent is reduced by a multiple of the logarithm of two, to at most half of it in size. What is
left of it is put into a rational function. -/

/-- An exponent as `times * ln 2 + rest + correction`. -/
structure ReducedExponent where
  times : Int
  rest : Binary64
  correction : Binary64

/-- Reduce an exponent. -/
def reduceExponent (x : Binary64) : ReducedExponent :=
  let reduced (times : Int) : ReducedExponent :=
    let high := x - ofInt times * lnTwoHigh
    let low := ofInt times * lnTwoLow
    ⟨times, high - low, (high - (high - low)) - low⟩
  if x.abs < (⟨0x3FD62E4300000000⟩ : Binary64) then ⟨0, x, 0⟩
  else if x.abs < (⟨0x3FF0A2B200000000⟩ : Binary64) then reduced (if x.isNegative then -1 else 1)
  else
    let quotient := (1.44269504088896338700 : Binary64) * x
    reduced (if x.isNegative then quotient - 0.5 else quotient + 0.5).toInt32

/-- The polynomial in `h = x * x / 2` for an exponential. -/
def exponentialSeries (h : Binary64) : Binary64 :=
  let h2 := h * h
  1 + h * -3.33333333333331316428e-02 +
    h2 * (1.58730158725481460165e-03 + h * -7.93650757867487942473e-05) +
    h2 * h2 * (4.00821782732936239552e-06 + h * -2.01099218183624371326e-07)

/-- Multiply a normal number by a power of two whose product is normal. -/
def timesPowerOfTwo (x : Binary64) (exponent : Int) : Binary64 :=
  ⟨((x.bits.toNat : Int) + exponent * hiddenBit).toNat.toUInt64⟩

/-- `exp x - 1` for an exponent that was reduced. -/
def ReducedExponent.expMinusOne (reduced : ReducedExponent) : Binary64 :=
  let x := reduced.rest
  let half := 0.5 * x
  let halfSquare := x * half
  let series := exponentialSeries halfSquare
  let t := 3 - series * half
  let quotient := halfSquare * ((series - t) / (6 - x * t))
  let times := reduced.times
  if times = 0 then x - (x * quotient - halfSquare)
  else
    let e := (x * (quotient - reduced.correction) - reduced.correction) - halfSquare
    if times = -1 then 0.5 * (x - e) - 0.5
    else if times = 1 then
      if x < -0.25 then -2 * (e - (x + 0.5)) else 1 + 2 * (x - e)
    else if times ≤ -2 ∨ 56 < times then timesPowerOfTwo (1 - (e - x)) times - 1
    else if times < 20 then timesPowerOfTwo ((1 - powerOfTwo (-times)) - (e - x)) times
    else timesPowerOfTwo ((x - (e + powerOfTwo (-times))) + 1) times

/-- From here on `exp x` is infinite. -/
def exponentLimit : Binary64 := 7.09782712893383973096e+02

/-- `exp x - 1` without losing a small `x`. -/
def expMinusOne (x : Binary64) : Binary64 :=
  if x.isNaN then x.quiet
  else if exponentLimit < x then infinity
  else if x ≤ (⟨0xC043687A00000000⟩ : Binary64) then -1
  else if x.abs < powerOfTwo (-54) then x
  else (reduceExponent x).expMinusOne

/-! ## Hyperbolic functions and their inverses -/

def sinh (x : Binary64) : Binary64 := lift Float.sinh x
def cosh (x : Binary64) : Binary64 := lift Float.cosh x
def tanh (x : Binary64) : Binary64 := lift Float.tanh x
def asinh (x : Binary64) : Binary64 := lift Float.asinh x
def acosh (x : Binary64) : Binary64 := lift Float.acosh x

/-- Half the logarithm of `(1 + x) / (1 - x)`. Near minus one the quotient loses digits. -/
def atanh (x : Binary64) : Binary64 := 0.5 * lnOnePlus (2 * x / (1 - x))

/-! ## Angles -/

def toDegrees (x : Binary64) : Binary64 := x * (180 / pi)

def toRadians (x : Binary64) : Binary64 := x * (pi / 180)

/-! ## The gamma function -/

/-- Coefficients of the series behind `gamma`, after the leading one. -/
def gammaSeries : List (Binary64 × Binary64) :=
  [(676.5203681218851, 1), (-1259.1392167224028, 2), (771.3234287776531, 3),
   (-176.6150291621406, 4), (12.507343278686905, 5), (-0.13857109526572012, 6),
   (9.984369578019572e-6, 7), (1.5056327351493116e-7, 8)]

/-- The gamma function right of one half. -/
def gammaRight (x : Binary64) : Binary64 :=
  let x := x - 1
  let t := x + 7.5
  let series := gammaSeries.foldl (fun sum term => sum + term.1 / (x + term.2)) 0.9999999999998099
  (2 * pi).sqrt * t.pow (x + 0.5) * (-t).exp * series

/-- The gamma function; left of one half by reflection. -/
def gamma (x : Binary64) : Binary64 :=
  if x < 0.5 then pi / ((pi * x).sin * gammaRight (1 - x)) else gammaRight x

end Keystroke.Binary64
