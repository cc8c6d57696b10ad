import Keystroke.Error

/-!
# Flags

One hundred flags, some of which the machine owns: they hold the display and angle modes and steer
stack lift, printing and errors.
-/

namespace Keystroke

/-- How many digits a number is shown with, and in which form. -/
inductive DisplayMode where
  /-- A fixed count of places. -/
  | fixed (digits : Nat)
  /-- With an exponent. -/
  | scientific (digits : Nat)
  /-- With an exponent that is a multiple of three. -/
  | engineering (digits : Nat)
  /-- All digits. -/
  | all
deriving DecidableEq, Repr, Inhabited

/-- The unit of angles. -/
inductive AngleMode where
  | degrees
  | radians
  | gradians
deriving DecidableEq, Repr, Inhabited

/-- The flags, numbered from zero. -/
structure Flags where
  values : Vector Bool 100
deriving DecidableEq

namespace Flags

def count : Nat := 100

def printNormal : Nat := 15
def printTrace : Nat := 16
def printerEnabled : Nat := 21
def errorIgnored : Nat := 25
def liftDisabled : Nat := 30
def fixedOrAll : Nat := 40
def engineeringOrAll : Nat := 41
def gradians : Nat := 42
def radians : Nat := 43
def printerExists : Nat := 55
def polar : Nat := 73

/-- The flags that hold the count of digits, the highest bit first. -/
def digitFlags : List Nat := [36, 37, 38, 39]

/-- Whether a flag is set; a flag that does not exist is clear. -/
def get (flags : Flags) (n : Nat) : Bool := flags.values.toArray.getD n false

/-- Set or clear a flag; a flag that does not exist stays as it is. -/
def set (flags : Flags) (n : Nat) (value : Bool) : Flags := ⟨flags.values.setIfInBounds n value⟩

/-- Whether a command may change a flag. -/
def isUserFlag (n : Nat) : Bool := n ≤ 35 || 81 ≤ n

/-- Set or clear a flag on behalf of a command. -/
def setUser (flags : Flags) (n : Nat) (value : Bool) : Outcome Flags :=
  if count ≤ n then fail .outOfRange
  else if !isUserFlag n then fail .restrictedOperation
  else .ok (flags.set n value)

/-- The count of digits that the flags hold. -/
def digits (flags : Flags) : Nat :=
  digitFlags.foldl (fun digits n => digits * 2 + (flags.get n).toNat) 0

def displayMode (flags : Flags) : DisplayMode :=
  match flags.get fixedOrAll, flags.get engineeringOrAll with
  | true, true => .all
  | true, false => .fixed flags.digits
  | false, true => .engineering flags.digits
  | false, false => .scientific flags.digits

/-- Set the flags that hold the count of digits; four bits of it are kept. -/
def setDigits (flags : Flags) (digits : Nat) : Flags :=
  (((flags.set 36 (digits.testBit 3)).set 37 (digits.testBit 2)).set 38 (digits.testBit 1)).set 39
    (digits.testBit 0)

def setDisplayMode (flags : Flags) (mode : DisplayMode) : Flags :=
  let put (isFixed isEngineering : Bool) (digits : Nat) : Flags :=
    ((flags.set fixedOrAll isFixed).set engineeringOrAll isEngineering).setDigits digits
  match mode with
  | .fixed digits => put true false digits
  | .scientific digits => put false false digits
  | .engineering digits => put false true digits
  | .all => put true true 0

def angleMode (flags : Flags) : AngleMode :=
  if flags.get radians then .radians
  else if flags.get gradians then .gradians
  else .degrees

def setAngleMode (flags : Flags) (mode : AngleMode) : Flags :=
  (flags.set radians (mode == .radians)).set gradians (mode == .gradians)

/-- All flags clear. -/
def clear : Flags := ⟨Vector.replicate 100 false⟩

/-- The flags of a new machine: four fixed places, and a printer that exists. -/
def initial : Flags := (clear.setDisplayMode (.fixed 4)).set printerExists true

instance : Inhabited Flags := ⟨initial⟩

/-- The flags with the given values, which must be one hundred. -/
def ofList (values : List Bool) : Outcome Flags :=
  if size : values.toArray.size = 100 then .ok ⟨⟨values.toArray, size⟩⟩
  else failWith .invalidData "FLAG COUNT"

def toList (flags : Flags) : List Bool := flags.values.toList

/-- The numbers of the flags that are set. -/
def setNumbers (flags : Flags) : List Nat := (List.range count).filter flags.get

end Flags

end Keystroke
