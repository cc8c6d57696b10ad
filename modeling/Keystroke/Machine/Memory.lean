import Keystroke.Machine.Editing

/-!
# Memory

Commands on the text register, the numbered registers and variables, and those that make arrays.
-/

namespace Keystroke.Machine

/-- The longest text in the text register. -/
def maximalAlphaLength : Nat := 44

/-- The length of the text that is stored from the text register. -/
def storedAlphaLength : Nat := 6

/-- Append to the text register; what is too much is lost at its start. -/
def appendAlpha (machine : Machine) (bytes : List UInt8) : Machine :=
  let text := machine.alpha ++ bytes
  { machine with alpha := text.drop (text.length - maximalAlphaLength) }

/-- Store the start of the text register. -/
def storeAlpha (argument : Argument) : Action Unit := do
  let text ← Value.ofText ((← get).alpha.take storedAlphaLength)
  store argument text

/-- Append a value to the text register as it is shown, but a text as it is. -/
def recallAlpha (argument : Argument) : Action Unit := do
  let machine ← get
  match ← machine.valueAt argument with
  | .text bytes => set (machine.appendAlpha bytes)
  | value => set (machine.appendAlpha (Text.toBytes (value.shown machine.flags)))

/-- Exchange X with what an argument refers to. -/
def exchangeX (argument : Argument) : Action Unit := do
  let machine ← get
  let recalled ← machine.valueAt argument
  store argument (← machine.stack.x)
  setX recalled

/-- Remove a variable, if it is global or belongs to the present call. -/
def clearVariable (name : List UInt8) : Action Unit :=
  modify fun machine =>
    match machine.bindings.purge name machine.level with
    | some (_, bindings) => ({ machine with bindings } : Machine).checkEditor
    | none => machine

/-- Put a new value into the variable at a position. -/
def replaceVariable (index : Nat) (value : Value) : Action Unit := do
  setVariable index (← adopt value)

/-- Fill the registers with zeros. -/
def clearRegisters : Action Unit := do
  match ← (← get).registers with
  | (index, .realMatrix _ grid) =>
    replaceVariable index (.newRealMatrix (grid.map fun _ => .number 0))
  | (index, .complexMatrix _ grid) =>
    replaceVariable index (.newComplexMatrix (grid.map fun _ => ⟨0, 0⟩))
  | _ => fail .invalidType

/-- A real matrix of zeros. -/
def zeroMatrix (memory rows cols : Nat) : Outcome Value := do
  return .newRealMatrix (← Grid.filled memory rows cols (.number 0))

/-- Change the dimensions of the real matrix in a variable. The matrix moves to a storage of its own
even if the dimensions are refused. -/
def resizeVariable (index rows cols : Nat) : Action Unit := do
  let machine ← get
  match (machine.bindings.get? index).map Variable.value with
  | some (.realMatrix _ grid) =>
    let storage ← newStorage 1
    setVariable index (.realMatrix (some storage) grid)
    let changed ← grid.resize machine.memory rows cols (.number 0)
    setVariable index (.realMatrix (some storage) changed)
  | _ => fail .invalidType

/-- Change the count of registers; none at all removes them. -/
def resizeRegisters (count : Nat) : Action Unit := do
  let machine ← get
  if count = 0 then
    match machine.bindings.purge registersName Variable.globalLevel with
    | some (_, bindings) => set ({ machine with bindings } : Machine).checkEditor
    | none => set machine.checkEditor
  else
    match machine.bindings.lookup? registersName machine.level with
    | some index => resizeVariable index count 1
    | none =>
      let matrix ← adopt (← zeroMatrix machine.memory count 1)
      let machine ← get
      let bindings ← machine.bindings.store registersName matrix Variable.globalLevel
      set { machine with bindings }

/-- Y rows and X columns, each at least one. -/
def wantedDimensions (machine : Machine) : Outcome (Nat × Nat) := do
  machine.stack.require 2
  let cols ← (← machine.stack.x).asReal
  let rows ← (← machine.y).asReal
  if cols < 1 ∨ rows < 1 then fail .dimensionError
  return (rows.toNatUpTo Editor.indexLimit, cols.toNatUpTo Editor.indexLimit)

/-- Give a matrix variable Y rows and X columns; it is made if it does not exist. -/
def dimension (name : List UInt8) : Action Unit := do
  let machine ← get
  let (rows, cols) ← machine.wantedDimensions
  match machine.bindings.lookup? name machine.level with
  | some index => resizeVariable index rows cols
  | none => storeName name (← adopt (← zeroMatrix machine.memory rows cols))

/-- Replace Y and X by a matrix of zeros with Y rows and X columns. -/
def newMatrix : Action Unit := do
  let machine ← get
  let (rows, cols) ← machine.wantedDimensions
  let matrix ← adopt (← zeroMatrix machine.memory rows cols)
  let stack ← machine.stack.replaceTop 2 matrix
  modify fun machine => { machine with stack }

/-- Put an empty list on the stack. -/
def newList : Action Unit := do pushLift (← adopt (.list none []))

end Keystroke.Machine
