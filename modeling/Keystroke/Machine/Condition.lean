import Keystroke.Machine.Operand

/-!
# Conditions

Commands that ask something. The answer is a signal: a running program skips its next line on a "no",
and a typed condition shows the answer.
-/

namespace Keystroke.Machine

/-- Give an answer. -/
def answer (condition : Bool) : Outcome Unit := fail (if condition then .yes else .no)

/-- The commands that compare X with zero, or with Y, by what they accept. -/
inductive Relation where
  | equal
  | unequal
  | less
  | greater
  | atMost
  | atLeast
deriving DecidableEq, Repr, Inhabited

/-- Whether an order is one that the relation accepts. -/
def Relation.accepts : Relation → Ordering → Bool
  | equal, order => order.isEq
  | unequal, order => order.isNe
  | less, order => order.isLT
  | greater, order => order.isGT
  | atMost, order => order.isLE
  | atLeast, order => order.isGE

/-- The commands that compare X with zero. -/
def zeroRelation? : Opcode → Option Relation
  | .isXZero => some .equal
  | .isXNonzero => some .unequal
  | .isXNegative => some .less
  | .isXPositive => some .greater
  | .isXAtMostZero => some .atMost
  | .isXAtLeastZero => some .atLeast
  | _ => none

/-- The commands that compare X with Y. -/
def relationToY? : Opcode → Option Relation
  | .isXEqualY => some .equal
  | .isXUnequalY => some .unequal
  | .isXBelowY => some .less
  | .isXAboveY => some .greater
  | .isXAtMostY => some .atMost
  | .isXAtLeastY => some .atLeast
  | _ => none

/-- Whether a value is the complex zero. -/
def isComplexZero : Value → Bool
  | .complex z => z.isZero
  | _ => false

/-- Compare a value with zero. Anything may be equal to it, but only real numbers have an order. -/
def compareWithZero (relation : Relation) (x : Value) : Outcome Unit := do
  if x.isReal then answer (relation.accepts (← x.compare .zero))
  else
    match relation with
    | .equal => answer (isComplexZero x)
    | .unequal => answer (!isComplexZero x)
    | _ =>
      let _ ← x.asReal
      fail .invalidType

/-- Compare X with Y. Anything may be equal, but only real numbers have an order. -/
def compareWithY (relation : Relation) (y x : Value) : Outcome Unit := do
  match relation with
  | .equal => answer (y.equals x)
  | .unequal => answer (!y.equals x)
  | _ => answer (relation.accepts (← x.compare y))

/-- The commands that ask what kind of value X is. -/
def kindCondition? : Opcode → Option (Value → Bool)
  | .isReal => some Value.isReal
  | .isComplex => some fun
    | .complex _ | .complexMatrix _ _ => true
    | _ => false
  | .isText => some fun
    | .text _ => true
    | _ => false
  | .isMatrix => some Value.isMatrix
  | _ => none

/-- The commands that ask for a flag: whether it has to be set, and whether it is cleared then. -/
def flagCondition? : Opcode → Option (Bool × Bool)
  | .isFlagSet => some (true, false)
  | .isFlagClear => some (false, false)
  | .isFlagSetThenClear => some (true, true)
  | .isFlagClearThenClear => some (false, true)
  | _ => none

/-- Ask for a flag. -/
def askFlag (wanted clears : Bool) (argument : Argument) : Action Unit := do
  let machine ← get
  let flag ← machine.numberArgument argument
  if Flags.count ≤ flag then fail .outOfRange
  if clears then
    set { machine with flags := ← machine.flags.setUser flag false }
  answer (machine.flags.get flag == wanted)

/-- What a condition does; none if the command is of another kind. -/
def condition? (opcode : Opcode) (argument : Argument) : Option (Action Unit) :=
  match zeroRelation? opcode with
  | some relation => some do compareWithZero relation (← (← get).stack.x)
  | none =>
    match relationToY? opcode with
    | some relation => some do
      let machine ← get
      machine.stack.require 2
      compareWithY relation (← machine.y) (← machine.stack.x)
    | none =>
      match kindCondition? opcode with
      | some holds => some do answer (holds (← (← get).stack.x))
      | none => (flagCondition? opcode).map fun wanted => askFlag wanted.1 wanted.2 argument

/-- The parts of a loop counter: its whole part, and the final value and the step of its fraction,
which is written as five digits. -/
structure Counter where
  whole : Binary64
  fraction : Binary64
  final : Binary64
  step : Binary64

/-- The counter in a number; a step of zero counts as one. -/
def Counter.ofReal (x : Binary64) : Counter :=
  let whole := x.truncate
  let digits := ((x - whole).abs * 100000).round
  let final := (digits / 100).truncate
  let step := digits - final * 100
  ⟨whole, digits / 100000, final, if step.isZero then 1 else step⟩

/-- A number with a whole part and a fraction. -/
def Counter.value (counter : Counter) (whole : Binary64) : Binary64 :=
  if whole < 0 then whole - counter.fraction else whole + counter.fraction

/-- Count up or down, and ask whether the final value is not yet passed. -/
def countLoop (up : Bool) (argument : Argument) : Action Unit := do
  let x ← (← (← get).valueAt argument).asReal
  let counter := Counter.ofReal x
  let next := if up then counter.whole + counter.step else counter.whole - counter.step
  let done := if up then decide (counter.final < next) else decide (next ≤ counter.final)
  store argument (.real (counter.value next))
  answer (!done)

end Keystroke.Machine
