import Keystroke.Machine.Storage

/-!
# Operands

What an argument refers to, and reading and writing there: a numbered register, a level of the stack,
or a variable. The registers are the elements of the matrix `REGS`, row by row.
-/

namespace Keystroke.Machine

/-! ## Reading -/

/-- The variable that holds the registers, by its position and value. -/
def registers (machine : Machine) : Outcome (Nat × Value) :=
  match machine.bindings.lookup? registersName machine.level with
  | some index => .ok (index, ((machine.bindings.get? index).map Variable.value).getD .null)
  | none => fail .sizeError

/-- The element of a grid at a place in row-by-row order. -/
def gridAt {α : Type} (grid : Grid α) (place : Nat) : Option α :=
  grid.get? (place / grid.cols) (place % grid.cols)

/-- The value in a numbered register. -/
def register (machine : Machine) (number : Nat) : Outcome Value := do
  let (_, value) ← machine.registers
  let found (value : Option Value) : Outcome Value :=
    match value with
    | some value => .ok value
    | none => fail .sizeError
  match value with
  | .realMatrix _ grid => found ((gridAt grid number).map .ofCell)
  | .complexMatrix _ grid => found ((gridAt grid number).map .complex)
  | _ => fail .invalidType

/-- The value in a register of the stack. -/
def stackRegister (machine : Machine) (register : StackRegister) : Outcome Value :=
  match register.depth? with
  | none => .ok machine.lastX
  | some depth =>
    match machine.stack.get? depth with
    | some value => .ok value
    | none => fail .stackDepthError

/-- The value of a variable that must exist. -/
def variableNamed (machine : Machine) (name : List UInt8) : Outcome Value :=
  match machine.recallName name with
  | some value => .ok value
  | none => fail .nonexistent

/-- The value that an operand names. -/
def recallOperand (machine : Machine) : Operand → Outcome Value
  | .number number => machine.register number.toNat
  | .stack register => machine.stackRegister register
  | .text name => machine.variableNamed name

/-- From here on a number is no argument. -/
def argumentLimit : Binary64 := 2147483647

/-- The argument that a value stands for: the whole part of a number without its sign, or a name. -/
def argumentOf : Value → Outcome Argument
  | .real x =>
    let whole := x.abs.truncate
    if argumentLimit ≤ whole then fail .outOfRange
    else .ok (.direct (.number (whole.toNatUpTo 0xFFFFFFFF).toUInt32))
  | .text bytes =>
    if bytes.length > Argument.maximalTextLength then fail .nameTooLong
    else .ok (.direct (.text bytes))
  | _ => fail .invalidType

/-- Replace an indirect argument by what is found at its operand. -/
def resolve (machine : Machine) : Argument → Outcome Argument
  | .indirect operand => do argumentOf (← machine.recallOperand operand)
  | argument => .ok argument

/-- An argument that must be a number. -/
def numberArgument (machine : Machine) (argument : Argument) : Outcome Nat := do
  match ← machine.resolve argument with
  | .direct (.number number) => return number.toNat
  | .direct (.text _) => fail .alphaDataIsInvalid
  | _ => fail .invalidData

/-- An argument that must be a name. -/
def nameArgument (machine : Machine) (argument : Argument) : Outcome (List UInt8) := do
  match ← machine.resolve argument with
  | .direct (.text name) => return name
  | _ => fail .invalidType

/-- An argument that must be the name of a global label. -/
def labelArgument (machine : Machine) (argument : Argument) : Outcome (List UInt8) := do
  match ← machine.resolve argument with
  | .direct (.text name) => return name
  | _ => fail .labelNotFound

/-- How an argument is shown in front of its value. -/
def shownArgument (machine : Machine) (argument : Argument) : Outcome String := do
  match ← machine.resolve argument with
  | .direct (.number number) => return "R" ++ Decimal.paddedDigits 2 number.toNat
  | .direct (.stack register) => return "ST " ++ Text.ofBytes [register.letter]
  | .direct (.text name) => return Text.ofBytes name
  | _ => return ""

/-- The value that an argument refers to. -/
def valueAt (machine : Machine) (argument : Argument) : Outcome Value := do
  match ← machine.resolve argument with
  | .direct operand => machine.recallOperand operand
  | _ => fail .invalidData

/-- The value in Y. -/
def y (machine : Machine) : Outcome Value :=
  match machine.stack.get? 1 with
  | some value => .ok value
  | none => fail .tooFewArguments

/-! ## Writing -/

/-- The matrix element that a value becomes. -/
def cellOf : Value → Outcome Cell
  | .real x => .ok (.number x)
  | .text bytes => .ok (.text bytes)
  | _ => fail .invalidType

/-- The complex matrix element that a value becomes. -/
def complexOf : Value → Outcome ComplexNumber
  | .real x => .ok ⟨x, 0⟩
  | .complex z => .ok z
  | _ => fail .invalidType

/-- Replace the value of the variable at a position. -/
def setVariable (index : Nat) (value : Value) : Action Unit :=
  modify fun machine => { machine with bindings := machine.bindings.setValue index value }

/-- Put a value into a numbered register. -/
def storeRegister (number : Nat) (value : Value) : Action Unit := do
  let machine ← get
  let (index, registers) ← machine.registers
  match registers with
  | .realMatrix _ grid =>
    if grid.rows * grid.cols ≤ number then fail .sizeError
    let cell ← cellOf value
    let changed ← grid.set (number / grid.cols) (number % grid.cols) cell
    setVariable index (.realMatrix (some (← newStorage 1)) changed)
  | .complexMatrix _ grid =>
    if grid.rows * grid.cols ≤ number then fail .sizeError
    let element ← complexOf value
    let changed ← grid.set (number / grid.cols) (number % grid.cols) element
    setVariable index (.complexMatrix (some (← newStorage 1)) changed)
  | _ => fail .invalidType

/-- Put a value into a register of the stack. -/
def storeStackRegister (register : StackRegister) (value : Value) : Action Unit := do
  let machine ← get
  match register.depth? with
  | none => set { machine with lastX := value }
  | some depth =>
    if machine.stack.depth ≤ depth then fail .stackDepthError
    set { machine with stack := machine.stack.set depth value }

/-- Put a value into a variable, which is made if it does not exist. -/
def storeName (name : List UInt8) (value : Value) : Action Unit := do
  let machine ← get
  let bindings ← machine.bindings.store name value machine.level
  set { machine with bindings }

/-- Put a value where an argument refers to. -/
def store (argument : Argument) (value : Value) : Action Unit := do
  match ← (← get).resolve argument with
  | .direct (.number number) => storeRegister number.toNat value
  | .direct (.stack register) => storeStackRegister register value
  | .direct (.text name) => storeName name value
  | _ => fail .invalidData

/-! ## X and the last X -/

/-- Replace X. -/
def setX (value : Value) : Action Unit :=
  modify fun machine => { machine with stack := machine.stack.setX value }

/-- Put a value on the stack. -/
def push (value : Value) : Action Unit :=
  modify fun machine => { machine with stack := machine.stack.push value }

/-- Put a value on the stack, or in place of X while stack lift is disabled. -/
def pushLift (value : Value) : Action Unit := modify (·.pushLifting value)

/-- Replace X by a result and remember it as the last X. -/
def replaceX (x result : Value) : Action Unit := do
  let result ← adopt result
  modify fun machine => { machine with lastX := x, stack := machine.stack.setX result }

/-- Apply a function to X. -/
def applyToX (f : Value → Outcome Value) : Action Unit := do
  let x ← (← get).stack.x
  replaceX x (← f x)

/-- Replace Y and X by the result of an operation on them. -/
def applyToYX (f : Value → Value → Outcome Value) : Action Unit := do
  let machine ← get
  machine.stack.require 2
  let x ← machine.stack.x
  let result ← adopt (← f (← machine.y) x)
  let stack ← machine.stack.replaceTop 2 result
  modify fun machine => { machine with lastX := x, stack }

/-- Replace X by the result of an operation on Y and X; Y stays. -/
def applyKeepingY (f : Binary64 → Binary64 → Outcome Binary64) : Action Unit := do
  let machine ← get
  machine.stack.require 2
  let x ← machine.stack.x
  replaceX x (← Value.onReals f (← machine.y) x)

/-- Replace what an argument refers to by the result of an operation on it and X. -/
def applyToStored (f : Value → Value → Outcome Value) (argument : Argument) : Action Unit := do
  let machine ← get
  let stored ← machine.valueAt argument
  let result ← f stored (← machine.stack.x)
  store argument (← adopt result)

/-- Replace X by the result of an operation on it and what an argument refers to. -/
def applyToRecalled (f : Value → Value → Outcome Value) (argument : Argument) : Action Unit := do
  let machine ← get
  let recalled ← machine.valueAt argument
  let x ← machine.stack.x
  replaceX x (← f x recalled)

end Keystroke.Machine
