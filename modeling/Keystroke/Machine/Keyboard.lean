import Keystroke.Instruction.Parser
import Keystroke.Machine.Execution

/-!
# Lines and keys

What is typed: whole lines, or keys one by one. Both lead to instructions, which are executed at once
or, while a program is being entered, inserted into it.
-/

namespace Keystroke

namespace Machine

/-! ## Instructions from the keyboard -/

/-- Execute the current line only. A call is followed into its subroutine, but the start of the solver or
of the integrator goes on running. -/
def singleStep (machine : Machine) : Machine :=
  let (outcome, left) := step.on { machine with isRunning := true }
  match outcome with
  | .error error =>
    let handled := left.handle error
    if error.kind ≠ .run && handled.task.isNone then { handled with isRunning := false }
    else handled
  | .ok () => if left.task.isNone then { left with isRunning := false } else left

/-- What becomes of the outcome of a command from the keyboard: an answer is shown. -/
def settle (outcome : Outcome Unit) (machine : Machine) : Machine :=
  match outcome with
  | .ok () => machine
  | .error error =>
    match error.kind with
    | .yes => { machine with message := some "Yes" }
    | .no => { machine with message := some "No" }
    | .run => { machine with isRunning := true }
    | _ => machine.handle error

/-- Execute an instruction from the keyboard. -/
def executeTyped (instruction : Instruction) (machine : Machine) : Machine :=
  let opcode := instruction.opcode
  if machine.isRunning then
    machine.handle ⟨.restrictedOperation, "PROGRAM RUNNING"⟩
  else if opcode.isOnlyInPrograms && opcode ≠ .deleteLines then
    machine.handle (.plain .restrictedOperation)
  else
    let ready := { machine with printsOnStop := machine.isTracing }
    let left :=
      if opcode = .singleStep && !machine.isProgramming then ready.singleStep
      else
        let (outcome, left) := (perform instruction .none).on ready
        left.settle outcome
    if left.isBusy then left else left.stop

/-- Whether an instruction is executed even while a program is being entered. -/
def isAlwaysExecuted (opcode : Opcode) : Bool :=
  opcode.isImmediate || opcode = .singleStep || opcode = .backStep

/-- Execute an instruction or insert it into the program. -/
def enterInstruction (instruction : Instruction) (machine : Machine) : Machine :=
  if machine.isProgramming && !isAlwaysExecuted instruction.opcode then
    performing (insertLine instruction) machine
  else executeTyped instruction machine

/-- Finish the number that is being keyed in: it becomes a literal like one that was typed. -/
def finishEntry : Action Unit := do
  let machine ← get
  match machine.entry with
  | none => return
  | some entry =>
    set { machine with entry := none }
    let value ← entry.value
    let literal := Argument.typedLiteral value (some (String.ofList entry.text))
    modify (enterInstruction ⟨.number, literal⟩)

/-! ## Keys with an effect of their own -/

/-- Start the program, or stop it. While a program is being entered, insert a stop. -/
def runOrStop (machine : Machine) : Machine :=
  if machine.isRunning then machine.stop
  else if machine.isProgramming then performing (insertLine (.plain .stop)) machine
  else
    performing (do
      finishEntry
      modify fun machine => { machine with prompt := none, isRunning := true }) machine

/-- Leave what is going on: the running program, a pending command, the entering of a program, or the
matrix editor. -/
def leave (machine : Machine) : Machine :=
  if machine.isRunning then machine.stop
  else if machine.pending.isSome then { machine with pending := none, pendingDigits := [] }
  else if machine.isProgramming then { machine with isProgramming := false }
  else { machine with editor := none }

/-- Begin or end the entering of a program. -/
def toggleProgramming (machine : Machine) : Machine :=
  let finished := performing finishEntry machine
  { finished with
    pending := none
    pendingDigits := []
    isProgramming := !finished.isProgramming }

/-! ## Lines -/

/-- The value that a line gives in answer to a question. -/
def answeredValue (line : String) : Outcome Value := do
  match ← TypedLine.parse line with
  | .complete ⟨.number, .literal value _⟩ => return .real value
  | .complete ⟨_, .direct (.text bytes)⟩ | .complete ⟨_, .longText bytes⟩ => Value.ofText bytes
  | _ => fail .invalidData

/-- Store the answer to a question; an empty line stores X as it is. -/
def storeAnswer (prompt : Prompt) (line : String) : Action Unit := do
  if !line.isEmpty then setX (← answeredValue line)
  store prompt.argument (← (← get).stack.x)
  modify fun machine => machine.setFlag Flags.liftDisabled false

/-- Upper-case a line and compare it with a word. -/
def isWord (line : List Char) (word : String) : Bool := Text.upper line = word.toList

/-- Take a line as the answer to a question. -/
def answerQuestion (prompt : Prompt) (line : List Char) (machine : Machine) : Bool × Machine :=
  if isWord line "EXIT" then (true, { machine with prompt := none })
  else
    match (storeAnswer prompt (String.ofList line)).on { machine with prompt := none } with
    | (.ok (), left) => (true, { left with isRunning := true })
    | (.error error, left) => (false, ({ left with prompt := some prompt } : Machine).handle error)

/-- Enter what a line was read as. -/
def enterParsed (machine : Machine) : Outcome TypedLine → Bool × Machine
  | .ok .empty => (true, machine)
  | .ok (.pending opcode) => (true, { machine with pending := some opcode })
  | .ok (.complete instruction) => (true, enterInstruction instruction machine)
  | .error error => (false, machine.handle error)

/-- Enter a command, or the argument of a pending one. -/
def enterCommand (line : String) (machine : Machine) : Bool × Machine :=
  match machine.pending with
  | some opcode =>
    enterParsed { machine with pending := none, pendingDigits := [] }
      (TypedLine.parseArgument opcode line)
  | none => machine.enterParsed (TypedLine.parse line)

/-- Enter a line; tells whether it was accepted. The error of one that was not is seen later. -/
def enter (line : String) (machine : Machine) : Bool × Machine :=
  let text := Text.trim line.toList
  match machine.prompt with
  | some prompt => answerQuestion prompt text machine
  | none =>
    match finishEntry.on machine with
    | (.error error, left) => (false, left.handle error)
    | (.ok (), left) =>
      if isWord text "PRGM" then (true, left.toggleProgramming)
      else if isWord text "R/S" then (true, left.runOrStop)
      else if isWord text "EXIT" then (true, left.leave)
      else enterCommand (String.ofList text) left

end Machine

/-! ## Keys -/

namespace Key

def enter : UInt8 := 13
def changeSign : UInt8 := 15
def exponent : UInt8 := 16
def backspace : UInt8 := 17
def exit : UInt8 := 33
def dot : UInt8 := 35
def runStop : UInt8 := 36

/-- The digit on a key. -/
def digit? (code : UInt8) : Option Char :=
  match code.toNat with
  | 19 => some '7'
  | 20 => some '8'
  | 21 => some '9'
  | 24 => some '4'
  | 25 => some '5'
  | 26 => some '6'
  | 29 => some '1'
  | 30 => some '2'
  | 31 => some '3'
  | 34 => some '0'
  | _ => none

/-- The command on a key without the shift. -/
def plainOpcode? (code : UInt8) : Option Opcode :=
  match code.toNat with
  | 1 => some .sumAdd
  | 2 => some .reciprocal
  | 3 => some .squareRoot
  | 4 => some .log
  | 5 => some .ln
  | 6 => some .execute
  | 7 => some .store
  | 8 => some .recall
  | 9 => some .rollDown
  | 10 => some .sin
  | 11 => some .cos
  | 12 => some .tan
  | 13 => some .enter
  | 14 => some .exchangeXY
  | 15 => some .negate
  | 18 => some .backStep
  | 22 => some .divide
  | 23 => some .singleStep
  | 27 => some .multiply
  | 32 => some .subtract
  | 37 => some .add
  | _ => none

/-- The command on a key with the shift. -/
def shiftedOpcode? (code : UInt8) : Option Opcode :=
  match code.toNat with
  | 1 => some .sumSubtract
  | 2 => some .power
  | 3 => some .square
  | 4 => some .tenToX
  | 5 => some .expX
  | 6 => some .goto
  | 7 => some .complex
  | 8 => some .percent
  | 9 => some .pi
  | 10 => some .asin
  | 11 => some .acos
  | 12 => some .atan
  | 14 => some .lastX
  | 18 => some .backStep
  | 23 => some .singleStep
  | _ => none

/-- The command on a key, if there is one. -/
def opcode? (key : Key) : Option Opcode :=
  if key.isShifted then shiftedOpcode? key.code else plainOpcode? key.code

end Key

namespace Machine

/-- Change the number that is being keyed in, beginning a new one if there is none. -/
def changeEntry (change : Entry → Entry) (machine : Machine) : Machine :=
  { machine with entry := some (change (machine.entry.getD .empty)) }

/-- A key while a program runs or waits for a key: it is queued, but run/stop and exit stop a program
that does not wait. -/
def queueKey (key : Key) (machine : Machine) : Machine :=
  if machine.task ≠ some .awaitingKey && !key.isShifted &&
      (key.code = Key.runStop || key.code = Key.exit) then
    machine.stop
  else { machine with keys := (machine.keys.push key).2 }

/-- Complete the pending command with the digits that were keyed in. -/
def finishPending (opcode : Opcode) (digits : List Char) (machine : Machine) : Machine :=
  (enterParsed { machine with pending := none, pendingDigits := [] }
    (TypedLine.parseArgument opcode (String.ofList digits))).2

/-- Whether the digits keyed in for a pending command are complete. -/
def digitsComplete (digits : List Char) : Bool := 2 ≤ (String.ofList digits).utf8ByteSize

/-- A key for a pending command: two digits complete it, and the enter key takes what is there. -/
def pressForPending (opcode : Opcode) (key : Key) (machine : Machine) : Machine :=
  if key.isShifted then machine
  else if key.code = Key.exit then machine.leave
  else if key.code = Key.backspace then
    if machine.pendingDigits.isEmpty then { machine with pending := none }
    else { machine with pendingDigits := machine.pendingDigits.dropLast }
  else if key.code = Key.enter then finishPending opcode machine.pendingDigits machine
  else
    match Key.digit? key.code with
    | none => machine
    | some digit =>
      let digits := machine.pendingDigits ++ [digit]
      if digitsComplete digits then finishPending opcode digits machine
      else { machine with pendingDigits := digits }

/-- The backspace key: it shortens the number that is being keyed in, deletes the line while a program
is being entered, and otherwise clears X. -/
def pressBackspace (machine : Machine) : Machine :=
  match machine.entry with
  | some entry =>
    match entry.backspace with
    | (true, shorter) => { machine with entry := some shorter }
    | (false, _) =>
      ({ machine with
        entry := none
        stack := machine.stack.setX .zero } : Machine).setFlag Flags.liftDisabled true
  | none =>
    if machine.isProgramming then performing (do let _ ← deleteLine) machine
    else enterInstruction (.plain .clearX) machine

/-- The key of a command. -/
def pressOpcode (opcode : Opcode) : Action Unit := do
  finishEntry
  if opcode.argumentKind = .none then modify (enterInstruction (.plain opcode))
  else modify fun machine => { machine with pending := some opcode, pendingDigits := [] }

/-- A key that has a command, or none. -/
def pressCommand (key : Key) (machine : Machine) : Machine :=
  match key.opcode? with
  | some opcode => performing (pressOpcode opcode) machine
  | none => machine

/-- A key without the shift, outside of pending commands. -/
def pressPlain (key : Key) (machine : Machine) : Machine :=
  match Key.digit? key.code with
  | some digit => machine.changeEntry fun entry => entry.digit digit
  | none =>
    if key.code = Key.dot then machine.changeEntry Entry.dot
    else if key.code = Key.exponent then machine.changeEntry Entry.exponent
    else if key.code = Key.changeSign && machine.entry.isSome then
      machine.changeEntry Entry.changeSign
    else if key.code = Key.backspace then machine.pressBackspace
    else if key.code = Key.exit then ({ machine with entry := none } : Machine).leave
    else if key.code = Key.runStop then machine.runOrStop
    else machine.pressCommand key

/-- Press a key. -/
def press (key : Key) (machine : Machine) : Machine :=
  if machine.isRunning || machine.task == some .awaitingKey then machine.queueKey key
  else
    match machine.pending with
    | some opcode => machine.pressForPending opcode key
    | none =>
      if !key.isShifted then machine.pressPlain key
      else if key.code = Key.runStop then machine.toggleProgramming
      else machine.pressCommand key

end Machine

end Keystroke
