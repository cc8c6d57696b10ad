import Keystroke.Machine.Operand

/-!
# Numeric commands

The commands that replace X, or Y and X, by a function of them, and those that calculate with a
variable. Each is a table from commands to functions, so that all commands of a table are performed in
the same way.
-/

namespace Keystroke

namespace Binary64

/-- Refuse what is not a whole number between zero and the largest thirty-two bit word. -/
def count? (x : Binary64) : Outcome Nat :=
  if x < 0 ∨ !x.fractionalPart.equals 0 ∨ (4294967295 : Binary64) < x then fail .invalidData
  else .ok (x.toNatUpTo 0xFFFFFFFF)

/-- Multiply by `n`, `n - 1` and so on, `count` factors in all, and for combinations divide by one, two
and so on. What has become infinite stays so. -/
def fallingProduct (divides : Bool) (n : Nat) : Nat → Nat → Binary64 → Binary64
  | 0, _, product => product
  | count + 1, taken, product =>
    if product.isInfinite then product
    else
      let next := product * .ofNat (n - taken)
      fallingProduct divides n count (taken + 1)
        (if divides then next / .ofNat (taken + 1) else next)

/-- The ways to choose `k` of `n` things, in order. -/
def permutations (n k : Binary64) : Outcome Binary64 := do
  let n ← n.count?
  let k ← k.count?
  if n < k then fail .invalidData
  return ← (fallingProduct false n k 0 1).round.checked

/-- The ways to choose `k` of `n` things. -/
def combinations (n k : Binary64) : Outcome Binary64 := do
  let n ← n.count?
  let k ← k.count?
  if n < k then fail .invalidData
  return ← (fallingProduct true n (min k (n - k)) 0 1).round.checked

/-- The remainder with the sign of the divisor; dividing by zero leaves everything. -/
def modulo (y x : Binary64) : Binary64 := if x.isZero then y else y - x * (y / x).floor

/-- Round to a decimal place; places that no power of ten can express do nothing. -/
def roundToPlace (x : Binary64) (place : Int) : Binary64 :=
  let scale := powInt 10 place
  if !scale.isFinite || scale.isZero then x else (x * scale).round / scale

/-- Round to what a display mode shows. -/
def roundToShown (x : Binary64) : DisplayMode → Binary64
  | .all => x
  | .fixed digits => x.roundToPlace digits
  | .scientific digits | .engineering digits =>
    if x.isZero then 0 else x.roundToPlace (digits - x.abs.log10.floor.toInt32)

/-- How much `x` is more than `y`, in percent of `y`. -/
def percentChange (y x : Binary64) : Outcome Binary64 :=
  if y.isZero then fail .divideByZero else .ok ((x - y) / y * 100)

end Binary64

namespace Machine

/-- A function of a real number that has a value everywhere. -/
def total (f : Binary64 → Binary64) : Value → Outcome Value := Value.onReal fun x => .ok (f x)

/-- A function of two real numbers that has a value everywhere. -/
def totalOfTwo (f : Binary64 → Binary64 → Binary64) : Value → Value → Outcome Value :=
  Value.onReals fun y x => .ok (f y x)

/-- The commands that replace X by a function of it. -/
def functionOfX? (memory : Nat) (flags : Flags) : Opcode → Option (Value → Outcome Value)
  | .negate => some Value.negate
  | .reciprocal => some Value.reciprocal
  | .squareRoot => some Value.sqrt
  | .square => some fun x => x.multiply memory x
  | .ln => some Value.ln
  | .log => some Value.log
  | .expX => some Value.exp
  | .tenToX => some fun x => (Value.real 10).power x
  | .expXMinusOne => some (total Binary64.expMinusOne)
  | .lnOnePlusX => some Value.lnOnePlus
  | .sin => some (Value.sin flags.angleMode)
  | .cos => some (Value.cos flags.angleMode)
  | .tan => some (Value.tan flags.angleMode)
  | .asin => some (Value.asin flags.angleMode)
  | .acos => some (Value.acos flags.angleMode)
  | .atan => some (Value.atan flags.angleMode)
  | .sinh => some (total Binary64.sinh)
  | .cosh => some (total Binary64.cosh)
  | .tanh => some (total Binary64.tanh)
  | .asinh => some (total Binary64.asinh)
  | .acosh => some Value.acosh
  | .atanh => some Value.atanh
  | .absolute => some Value.absolute
  | .sign => some Value.sign
  | .integerPart => some (total Binary64.truncate)
  | .fractionalPart => some (total Binary64.fractionalPart)
  | .round => some (total fun x => x.roundToShown flags.displayMode)
  | .factorial => some Value.factorial
  | .gamma => some Value.gamma
  | .toDegrees => some (total Binary64.toDegrees)
  | .toRadians => some (total Binary64.toRadians)
  | .toHours => some (total Binary64.hoursOfMinutesSeconds)
  | .toHoursMinutesSeconds => some (total Binary64.minutesSecondsOfHours)
  | _ => none

/-- An operation on times written as hours, minutes and seconds. -/
def onHours (f : Binary64 → Binary64 → Binary64) : Value → Value → Outcome Value :=
  totalOfTwo fun y x => (f y.hoursOfMinutesSeconds x.hoursOfMinutesSeconds).minutesSecondsOfHours

/-- The commands that replace Y and X by an operation on them. -/
def operationOnYX? (memory : Nat) : Opcode → Option (Value → Value → Outcome Value)
  | .add => some Value.add
  | .subtract => some Value.subtract
  | .multiply => some (Value.multiply memory)
  | .divide => some Value.divide
  | .power => some Value.power
  | .modulo => some (totalOfTwo Binary64.modulo)
  | .combinations => some (Value.onReals Binary64.combinations)
  | .permutations => some (Value.onReals Binary64.permutations)
  | .maximum => some (totalOfTwo Binary64.maximum)
  | .minimum => some (totalOfTwo Binary64.minimum)
  | .addHours => some (onHours (· + ·))
  | .subtractHours => some (onHours (· - ·))
  | _ => none

/-- The commands that replace X by an operation on Y and X and keep Y. -/
def percentage? : Opcode → Option (Binary64 → Binary64 → Outcome Binary64)
  | .percent => some fun y x => .ok (y * x / 100)
  | .percentChange => some Binary64.percentChange
  | _ => none

/-- The commands that calculate with X in a variable. -/
def storeOperation? (memory : Nat) : Opcode → Option (Value → Value → Outcome Value)
  | .storeAdd => some Value.add
  | .storeSubtract => some Value.subtract
  | .storeMultiply => some (Value.multiply memory)
  | .storeDivide => some Value.divide
  | _ => none

/-- The commands that calculate with a variable in X. -/
def recallOperation? (memory : Nat) : Opcode → Option (Value → Value → Outcome Value)
  | .recallAdd => some Value.add
  | .recallSubtract => some Value.subtract
  | .recallMultiply => some (Value.multiply memory)
  | .recallDivide => some Value.divide
  | _ => none

/-- What a numeric command does; none if the command is of another kind. -/
def numericCommand? (memory : Nat) (flags : Flags) (opcode : Opcode) (argument : Argument) :
    Option (Action Unit) :=
  match functionOfX? memory flags opcode with
  | some f => some (applyToX f)
  | none =>
    match operationOnYX? memory opcode with
    | some f => some (applyToYX f)
    | none =>
      match percentage? opcode with
      | some f => some (applyKeepingY f)
      | none =>
        match storeOperation? memory opcode with
        | some f => some (applyToStored f argument)
        | none => (recallOperation? memory opcode).map fun f => applyToRecalled f argument

/-- Join Y and X to a complex number, or split one, in the coordinates that the flags choose. -/
def joinOrSplit : Action Unit := do
  let machine ← get
  let mode := machine.flags.angleMode
  let isPolar := machine.flags.get Flags.polar
  match ← machine.stack.x with
  | .complex z =>
    modify fun machine => { machine with lastX := .complex z }
    setX (.real (if isPolar then z.re.hypot z.im else z.re))
    push (.real (if isPolar then mode.ofRadians (z.im.atan2 z.re) else z.im))
  | .real x =>
    machine.stack.require 2
    let y ← (← machine.y).asReal
    let angle := mode.toRadians x
    modify fun machine => { machine with lastX := .real x }
    let z ← (if isPolar then ComplexNumber.mk (y * angle.cos) (y * angle.sin) else ⟨y, x⟩).checked
    let stack ← machine.stack.replaceTop 2 (.complex z)
    modify fun machine => { machine with stack }
  | .text _ => fail .alphaDataIsInvalid
  | _ => fail .invalidType

end Machine

end Keystroke
