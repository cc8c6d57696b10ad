import Keystroke.Binary64
import Keystroke.Grid
import Keystroke.Text.Utf8

/-!
# Values

What the stack, the registers and the variables hold. Arrays are shared and not copied: two values
with the same storage number are the same array, and whoever changes an array gets a storage number
of its own for it. An array that has not been put anywhere yet has no storage number.
-/

namespace Keystroke

/-- A complex number in rectangular form. -/
structure ComplexNumber where
  re : Binary64
  im : Binary64
deriving DecidableEq, Inhabited

/-- Numeric equality of both parts. -/
def ComplexNumber.equals (z w : ComplexNumber) : Bool := z.re.equals w.re && z.im.equals w.im

/-- An element of a real matrix. -/
inductive Cell where
  | number (value : Binary64)
  | text (bytes : List UInt8)
deriving DecidableEq, Inhabited

/-- Numeric equality for numbers, equal bytes for texts. -/
def Cell.equals : Cell → Cell → Bool
  | .number x, .number y => x.equals y
  | .text first, .text second => first == second
  | _, _ => false

/-- Identifies the storage of an array; none until the array is put somewhere. -/
abbrev Storage := Option Nat

/-- What a stack level, a register or a variable holds. -/
inductive Value where
  | null
  | real (value : Binary64)
  | complex (value : ComplexNumber)
  | text (bytes : List UInt8)
  | realMatrix (storage : Storage) (grid : Grid Cell)
  | complexMatrix (storage : Storage) (grid : Grid ComplexNumber)
  | list (storage : Storage) (items : List Value)
deriving Inhabited

namespace Value

/-- The number zero, which fills what nothing was put into. -/
def zero : Value := .real 0

/-- The longest text. -/
def maximalTextLength : Nat := 65535

/-- A text value, if it is not too long. -/
def ofText (bytes : List UInt8) : Outcome Value :=
  if bytes.length > maximalTextLength then failWith .invalidData "STRING TOO LONG"
  else .ok (.text bytes)

/-- The number of a kind of value. -/
def typeCode : Value → Nat
  | null => 0
  | real _ => 1
  | complex _ => 2
  | realMatrix _ _ => 3
  | complexMatrix _ _ => 4
  | text _ => 5
  | list _ _ => 6

def isReal : Value → Bool
  | real _ => true
  | _ => false

def isMatrix : Value → Bool
  | realMatrix _ _ | complexMatrix _ _ => true
  | _ => false

/-- The number in a value that must be real. -/
def asReal : Value → Outcome Binary64
  | real value => .ok value
  | text _ => fail .alphaDataIsInvalid
  | _ => fail .invalidType

/-- Everything but a real zero counts as true. -/
def isTrue : Value → Bool
  | real value => !value.equals 0
  | _ => true

/-- The value of a matrix element. -/
def ofCell : Cell → Value
  | .number value => .real value
  | .text bytes => .text bytes

/-- The storage of an array value. -/
def storage : Value → Storage
  | realMatrix storage _ | complexMatrix storage _ | list storage _ => storage
  | _ => none

/-- The same value in the given storage, if it is an array. -/
def storedAt (value : Value) (storage : Storage) : Value :=
  match value with
  | realMatrix _ grid => .realMatrix storage grid
  | complexMatrix _ grid => .complexMatrix storage grid
  | list _ items => .list storage items
  | other => other

/-- Whether two storage numbers are known to be the same. -/
def sameStorage (first second : Storage) : Bool := first.isSome && first == second

mutual

/-- Equality of contents: numbers by value, texts by their bytes, arrays element by element. An array
always equals itself, even if a NaN is in it. -/
def equals : Value → Value → Bool
  | null, null => true
  | real x, real y => x.equals y
  | complex z, complex w => z.equals w
  | text first, text second => first == second
  | realMatrix first left, realMatrix second right =>
    sameStorage first second || left.agrees Cell.equals right
  | complexMatrix first left, complexMatrix second right =>
    sameStorage first second || left.agrees ComplexNumber.equals right
  | list first left, list second right => sameStorage first second || allEqual left right
  | _, _ => false

/-- Equality of contents, element by element. -/
def allEqual : List Value → List Value → Bool
  | [], [] => true
  | x :: left, y :: right => equals x y && allEqual left right
  | _, _ => false

end

end Value

end Keystroke
