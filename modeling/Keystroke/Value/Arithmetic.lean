import Keystroke.Binary64.Elementary
import Keystroke.Value

/-!
# Arithmetic on values

The operations of two operands. Real and complex numbers mix, and matrices take part element by
element. A result that is no number is refused as invalid data, an infinite one as out of range.
-/

namespace Keystroke

namespace Binary64

/-- Refuse what is not a finite number. -/
def checked (x : Binary64) : Outcome Binary64 :=
  if x.isNaN then fail .invalidData
  else if x.isInfinite then fail .outOfRange
  else .ok x

end Binary64

namespace ComplexNumber

/-- Refuse what is not a finite number; the real part is looked at first. -/
def checked (z : ComplexNumber) : Outcome ComplexNumber := do
  return ⟨← z.re.checked, ← z.im.checked⟩

/-- A real number as a complex one. -/
def ofReal (x : Binary64) : ComplexNumber := ⟨x, 0⟩

def isZero (z : ComplexNumber) : Bool := z.equals ⟨0, 0⟩

instance : Add ComplexNumber := ⟨fun z w => ⟨z.re + w.re, z.im + w.im⟩⟩
instance : Sub ComplexNumber := ⟨fun z w => ⟨z.re - w.re, z.im - w.im⟩⟩
instance : Mul ComplexNumber :=
  ⟨fun z w => ⟨z.re * w.re - z.im * w.im, z.re * w.im + z.im * w.re⟩⟩
instance : Neg ComplexNumber := ⟨fun z => ⟨-z.re, -z.im⟩⟩

def divide (z w : ComplexNumber) : Outcome ComplexNumber :=
  let size := w.re * w.re + w.im * w.im
  if size.equals 0 then fail .divideByZero
  else .ok ⟨(z.re * w.re + z.im * w.im) / size, (z.im * w.re - z.re * w.im) / size⟩

/-- The principal logarithm. -/
def ln (z : ComplexNumber) : Outcome ComplexNumber :=
  if z.isZero then fail .invalidData else .ok ⟨(z.re.hypot z.im).ln, z.im.atan2 z.re⟩

def exp (z : ComplexNumber) : ComplexNumber :=
  let size := z.re.exp
  ⟨size * z.im.cos, size * z.im.sin⟩

end ComplexNumber

/-- The number in a matrix element that must hold one. -/
def Cell.asReal : Cell → Outcome Binary64
  | .number value => .ok value
  | .text _ => fail .alphaDataIsInvalid

namespace Value

/-- A matrix that has not been put anywhere yet. -/
def newRealMatrix (grid : Grid Cell) : Value := .realMatrix none grid

/-- A matrix that has not been put anywhere yet. -/
def newComplexMatrix (grid : Grid ComplexNumber) : Value := .complexMatrix none grid

/-- Apply a function to every element of a real matrix. -/
def mapReal (f : Binary64 → Outcome Binary64) (grid : Grid Cell) : Outcome Value := do
  return newRealMatrix (← grid.mapM fun cell => do
    return .number (← (← f (← cell.asReal)).checked))

/-- Apply a function to every element of a complex matrix. -/
def mapComplex (f : ComplexNumber → Outcome ComplexNumber) (grid : Grid ComplexNumber) :
    Outcome Value := do
  return newComplexMatrix (← grid.mapM fun element => do (← f element).checked)

/-- Apply a function to the elements of two real matrices of one shape. -/
def zipReal (f : Binary64 → Binary64 → Outcome Binary64) (left right : Grid Cell) :
    Outcome Value := do
  return newRealMatrix (← left.zipM (fun x y => do
    return .number (← (← f (← x.asReal) (← y.asReal)).checked)) right)

/-- Operate on numbers, and on matrices element by element, with one operation for real and one for
complex operands. -/
def elementwise (onReals : Binary64 → Binary64 → Outcome Binary64)
    (onComplexes : ComplexNumber → ComplexNumber → Outcome ComplexNumber) :
    Value → Value → Outcome Value
  | .real x, .real y => do return .real (← (← onReals x y).checked)
  | .complex z, .real y => do return .complex (← (← onComplexes z (.ofReal y)).checked)
  | .real x, .complex w => do return .complex (← (← onComplexes (.ofReal x) w).checked)
  | .complex z, .complex w => do return .complex (← (← onComplexes z w).checked)
  | .realMatrix _ grid, .real y => mapReal (fun x => onReals x y) grid
  | .real x, .realMatrix _ grid => mapReal (fun y => onReals x y) grid
  | .realMatrix _ left, .realMatrix _ right => zipReal onReals left right
  | .complexMatrix _ grid, .real y => mapComplex (fun z => onComplexes z (.ofReal y)) grid
  | .complexMatrix _ grid, .complex w => mapComplex (fun z => onComplexes z w) grid
  | .real x, .complexMatrix _ grid => mapComplex (fun w => onComplexes (.ofReal x) w) grid
  | .complex z, .complexMatrix _ grid => mapComplex (fun w => onComplexes z w) grid
  | .text _, _ | _, .text _ => fail .alphaDataIsInvalid
  | _, _ => fail .invalidType

def add : Value → Value → Outcome Value :=
  elementwise (fun x y => .ok (x + y)) (fun z w => .ok (z + w))

def subtract : Value → Value → Outcome Value :=
  elementwise (fun x y => .ok (x - y)) (fun z w => .ok (z - w))

/-- The sum of the products of a row and a column, added up from the left. -/
def rowTimesColumn (left right : Grid Cell) (i j : Nat) : Outcome Binary64 :=
  (List.range left.cols).foldlM (fun sum k => do
    match left.get? i k, right.get? k j with
    | some x, some y => return sum + (← x.asReal) * (← y.asReal)
    | _, _ => fail .internalError) 0

/-- The product of two real matrices, if there is memory for it. -/
def matrixProduct (memory : Nat) (left right : Grid Cell) : Outcome Value := do
  if left.cols ≠ right.rows then fail .dimensionError
  Grid.checkDimensions memory left.rows right.cols
  let cells ← (List.range (left.rows * right.cols)).mapM fun place => do
    let sum ← rowTimesColumn left right (place / right.cols) (place % right.cols)
    return Cell.number (← sum.checked)
  return newRealMatrix (← Grid.ofCells left.rows right.cols cells.toArray)

def multiply (memory : Nat) (left right : Value) : Outcome Value :=
  match left, right with
  | .realMatrix _ first, .realMatrix _ second => matrixProduct memory first second
  | _, _ => elementwise (fun x y => .ok (x * y)) (fun z w => .ok (z * w)) left right

def divide (left right : Value) : Outcome Value :=
  if right.isMatrix then fail .notYetImplemented
  else
    elementwise (fun x y => if y.equals 0 then fail .divideByZero else .ok (x / y))
      ComplexNumber.divide left right

/-- A power of complex numbers; every power of zero is zero. -/
def complexPower (base exponent : ComplexNumber) : Outcome ComplexNumber :=
  if base.isZero then .ok ⟨0, 0⟩ else do return (exponent * (← base.ln)).exp

/-- The first operand to the power of the second; a negative base with a fractional exponent gives a
complex result. -/
def power (base exponent : Value) : Outcome Value :=
  match base, exponent with
  | .real y, .real x =>
    if y.equals 0 && decide (x < 0) then fail .invalidData
    else if decide (y < 0) && !x.fractionalPart.equals 0 then do
      let logarithm ← (ComplexNumber.ofReal y).ln
      return .complex (← (ComplexNumber.ofReal x * logarithm).exp.checked)
    else do return .real (← (y.pow x).checked)
  | _, _ =>
    if base.isMatrix || exponent.isMatrix then fail .invalidType
    else elementwise (fun y x => .ok (y.pow x)) complexPower base exponent

/-- Apply a function to two real operands. -/
def onReals (f : Binary64 → Binary64 → Outcome Binary64) (left right : Value) : Outcome Value := do
  let x ← left.asReal
  let y ← right.asReal
  return .real (← (← f x y).checked)

/-- The order of two real numbers. -/
def compare (left right : Value) : Outcome Ordering := do
  let x ← left.asReal
  let y ← right.asReal
  if x < y then return .lt
  else if y < x then return .gt
  else if x.equals y then return .eq
  else fail .invalidData

end Value

end Keystroke
