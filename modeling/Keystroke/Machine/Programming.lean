import Keystroke.Machine.Returning

/-!
# Entering programs

Moving between lines, and inserting and deleting them. Every edit forgets the calls, as their return
addresses may have moved.
-/

namespace Keystroke.Machine

/-- The current program. -/
def currentProgram (machine : Machine) : Outcome Program :=
  match machine.library.get? machine.program with
  | some program => .ok program
  | none => failWith .internalError "NO SUCH PROGRAM"

/-- Where a line is inserted: behind the current one, but in front of the end. -/
def insertionAddress (program : Program) : Option Nat → Nat
  | none => 0
  | some address =>
    if program.endAddress ≤ address then program.endAddress else program.next address

/-- Insert a line and make it the current one. -/
def insertLine (instruction : Instruction) : Action Unit := do
  if !instruction.opcode.isProgrammable then fail .restrictedOperation
  let machine ← get
  let address := insertionAddress (← machine.currentProgram) machine.address
  let library ← machine.library.insert machine.program address instruction
  set { ({ machine with library : Machine }).clearReturns with address := some address }

/-- Delete the current line; the one before it becomes the current one. Tells whether there was a line
to delete. -/
def deleteLine : Action Bool := do
  let machine ← get
  match machine.address with
  | none => return false
  | some address =>
    let (deleted, library) ← machine.library.delete machine.program address
    let edited := ({ machine with library : Machine }).clearReturns
    set <|
      if deleted then
        { edited with
          address :=
            (edited.library.get? edited.program).bind fun program => program.previous address }
      else edited
    return deleted

/-- Go to the next line; the end is followed by the top. -/
def nextLine (machine : Machine) : Machine :=
  match machine.library.get? machine.program with
  | none => machine
  | some program =>
    { machine with
      address :=
        match machine.address with
        | none => some 0
        | some address =>
          if program.endAddress ≤ address then none else some (program.next address) }

/-- Go to the line before; in front of the top is the end. -/
def previousLine (machine : Machine) : Machine :=
  match machine.library.get? machine.program with
  | none => machine
  | some program =>
    { machine with
      address :=
        match machine.address with
        | none => some program.endAddress
        | some address => program.previous address }

/-- Delete lines from the current one on. -/
def deleteLines : Nat → Action Unit
  | 0 => return
  | count + 1 => do
    let machine ← get
    if machine.isProgramming && machine.address.isSome then
      if ← deleteLine then
        modify nextLine
        deleteLines count

/-- The place of a global label. -/
def globalLabel (machine : Machine) (name : List UInt8) : Outcome (Nat × Nat) :=
  match machine.library.findGlobal? name with
  | some place => .ok place
  | none => fail .labelNotFound

/-- Go to an empty program at the end of the library. -/
def gotoNewProgram : Action Unit := do
  let machine ← get
  let (program, library) ← machine.library.openNew
  set { ({ machine with library : Machine }).clearReturns with program, address := none }

/-- The address of a line; a line that is not there counts as the end, and line zero is the top. -/
def lineAddress (program : Program) (line : Nat) : Option Nat :=
  if line = 0 then none else some ((program.addressOfLine? line).getD program.endAddress)

/-- Go to a line by its number, or to a global label. -/
def gotoLine (argument : Argument) : Action Unit := do
  let machine ← get
  match argument with
  | .direct (.number line) =>
    let address := lineAddress (← machine.currentProgram) line.toNat
    set { machine with address }
  | .direct (.text name) =>
    let (program, address) ← machine.globalLabel name
    set { machine with program, address := some address }
  | _ => fail .invalidData
  modify clearReturns

/-- Remove the program that holds a global label. -/
def clearProgram (name : List UInt8) : Action Unit := do
  let machine ← get
  let (program, _) ← machine.globalLabel name
  let library ← machine.library.clear program
  let cleared := ({ machine with library : Machine }).clearReturns
  set <|
    if machine.program = program then
      { cleared with program := min program (library.count - 1), address := none }
    else if program < machine.program then { cleared with program := machine.program - 1 }
    else cleared

end Keystroke.Machine
