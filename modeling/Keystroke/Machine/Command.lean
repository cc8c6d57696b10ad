import Keystroke.Machine.Condition
import Keystroke.Machine.Memory
import Keystroke.Machine.Numeric
import Keystroke.Machine.Programming

/-!
# Commands

What each command does. After a command the next number lifts the stack; but some commands leave stack
lift as it was, and `ENTER` and `CLX` disable it.
-/

namespace Keystroke

/-- Commands that leave stack lift as it was. -/
def Opcode.keepsLift : Opcode → Bool
  | .null | .label | .pause | .goto | .execute | .returnFromCall | .endOfProgram | .stop | .run
  | .setFlag | .clearFlag | .isFlagSet | .isFlagClear | .isFlagSetThenClear | .isFlagClearThenClear
  | .fixed | .scientific | .engineering | .allDigits | .degrees | .radians | .gradians
  | .rectangular | .polar
  | .isXZero | .isXNonzero | .isXNegative | .isXPositive | .isXAtMostZero | .isXAtLeastZero
  | .isXEqualY | .isXUnequalY | .isXBelowY | .isXAboveY | .isXAtMostY | .isXAtLeastY
  | .isReal | .isComplex | .isText | .isMatrix
  | .function | .localFourLevel | .localManyLevel | .returnYes | .returnNo | .returnError
  | .view | .viewAlpha | .prompt | .input
  | .printerOn | .printerOff | .printManual | .printNormal | .printTrace
  | .singleStep | .backStep | .gotoLine | .gotoNewProgram | .menuVariable
  | .solveProgram | .integrateProgram | .incrementSkipGreater | .decrementSkipEqual | .exitAll =>
    true
  | _ => false

/-- Commands that disable stack lift. -/
def Opcode.disablesLift : Opcode → Bool
  | .enter | .clearX => true
  | _ => false

namespace Machine

/-! ## The stack -/

/-- Change the stack. -/
def changeStack (change : Stack → Stack) : Action Unit :=
  modify fun machine => { machine with stack := change machine.stack }

/-- Change the stack in a way that may fail. -/
def tryStack (change : Stack → Outcome Stack) : Action Unit := do
  let machine ← get
  set { machine with stack := ← change machine.stack }

/-- What a command of the stack does; none if the command is of another kind. -/
def stackCommand? : Opcode → Option (Action Unit)
  | .clearX => some (setX .zero)
  | .enter | .duplicate => some do push (← (← get).stack.x)
  | .exchangeXY => some (tryStack fun stack => stack.swap 0 1)
  | .rollDown => some (changeStack Stack.rollDown)
  | .rollUp => some (changeStack Stack.rollUp)
  | .drop => some (tryStack fun stack => stack.pop.map Prod.snd)
  | .clearStack => some (changeStack Stack.clear)
  | .lastX => some do pushLift (← get).lastX
  | .fourLevel => some (changeStack fun stack => stack.setBig false)
  | .manyLevel => some (changeStack fun stack => stack.setBig true)
  | .pi => some (pushLift (.real Binary64.pi))
  | .complex => some joinOrSplit
  | _ => none

/-! ## Modes -/

/-- Change the flags. -/
def changeFlags (change : Flags → Flags) : Action Unit :=
  modify fun machine => { machine with flags := change machine.flags }

/-- Set or clear the flag that an argument names. -/
def setUserFlag (value : Bool) (argument : Argument) : Action Unit := do
  let machine ← get
  let flag ← machine.numberArgument argument
  set { machine with flags := ← machine.flags.setUser flag value }

/-- The most digits that a display mode can ask for. -/
def maximalShownDigits : Nat := 11

/-- Choose a display mode with the count of digits in an argument. -/
def setDisplayMode (mode : Nat → DisplayMode) (argument : Argument) : Action Unit := do
  let digits ← (← get).numberArgument argument
  if maximalShownDigits < digits then fail .outOfRange
  changeFlags fun flags => flags.setDisplayMode (mode digits)

/-- Choose what is printed. -/
def setPrintMode (isNormal isTrace : Bool) : Action Unit :=
  changeFlags fun flags =>
    (flags.set Flags.printNormal isNormal).set Flags.printTrace isTrace

/-- What a command on flags and modes does; none if the command is of another kind. -/
def modeCommand? (opcode : Opcode) (argument : Argument) : Option (Action Unit) :=
  match opcode with
  | .setFlag => some (setUserFlag true argument)
  | .clearFlag => some (setUserFlag false argument)
  | .degrees => some (changeFlags fun flags => flags.setAngleMode .degrees)
  | .radians => some (changeFlags fun flags => flags.setAngleMode .radians)
  | .gradians => some (changeFlags fun flags => flags.setAngleMode .gradians)
  | .rectangular => some (changeFlags fun flags => flags.set Flags.polar false)
  | .polar => some (changeFlags fun flags => flags.set Flags.polar true)
  | .fixed => some (setDisplayMode .fixed argument)
  | .scientific => some (setDisplayMode .scientific argument)
  | .engineering => some (setDisplayMode .engineering argument)
  | .allDigits => some (changeFlags fun flags => flags.setDisplayMode .all)
  | .printerOn => some (changeFlags fun flags => flags.set Flags.printerEnabled true)
  | .printerOff => some (changeFlags fun flags => flags.set Flags.printerEnabled false)
  | .printManual => some (setPrintMode false false)
  | .printNormal => some (setPrintMode true false)
  | .printTrace => some (setPrintMode false true)
  | _ => none

/-! ## Registers, variables and arrays -/

/-- Do something with the name that an argument gives. -/
def withName (argument : Argument) (action : List UInt8 → Action Unit) : Action Unit := do
  action (← (← get).nameArgument argument)

/-- Do something with the number that an argument gives. -/
def withNumber (argument : Argument) (action : Nat → Action Unit) : Action Unit := do
  action (← (← get).numberArgument argument)

/-- Do something with the global label that an argument gives. -/
def withLabel (argument : Argument) (action : List UInt8 → Action Unit) : Action Unit := do
  action (← (← get).labelArgument argument)

/-- What a command on registers, variables or the text register does; none if the command is of another
kind. -/
def memoryCommand? (opcode : Opcode) (argument : Argument) : Option (Action Unit) :=
  match opcode with
  | .store => some do store argument (← (← get).stack.x)
  | .recall => some do pushLift (← (← get).valueAt argument)
  | .storeLocal => some (withName argument fun name => do storeLocal name (← (← get).stack.x))
  | .exchangeX => some (exchangeX argument)
  | .alphaStore => some (storeAlpha argument)
  | .alphaRecall => some (recallAlpha argument)
  | .clearAlpha => some (modify fun machine => { machine with alpha := [] })
  | .alphaLength => some do pushLift (.real (.ofNat (← get).alpha.length))
  | .clearVariable => some (withName argument clearVariable)
  | .clearRegisters => some clearRegisters
  | .size => some (withNumber argument resizeRegisters)
  | .newMatrix => some newMatrix
  | .newList => some newList
  | .dimension => some (withName argument dimension)
  | _ => none

/-- What a command of the matrix editor does; none if the command is of another kind. -/
def editingCommand? (opcode : Opcode) (argument : Argument) : Option (Action Unit) :=
  match opcode with
  | .indexMatrix => some (withName argument fun name => beginEditing name false)
  | .editNamed => some (withName argument fun name => beginEditing name true)
  | .storeCursor => some storeCursor
  | .recallCursor => some recallCursor
  | .storeElement => some storeElement
  | .recallElement => some recallElement
  | .rowDown | .cursorDown => some moveDown
  | .rowUp | .cursorUp => some moveUp
  | .columnRight => some moveRight
  | .columnLeft => some moveLeft
  | .cursorLeft => some leaveLeft
  | .cursorRight => some enterRight
  | .exitAll => some (modify fun machine => { machine with editor := none })
  | _ => none

/-! ## Jumps, calls and programs -/

/-- The nearest label of the current program that an argument means. -/
def labelInProgram (machine : Machine) (argument : Argument) : Outcome (Nat × Nat) :=
  match machine.library.get? machine.program with
  | none => fail .labelNotFound
  | some program => do
    match ← program.findLabel machine.address argument with
    | some address => return (machine.program, address)
    | none => fail .labelNotFound

/-- Where a jump leads, if that was not already found with the instruction. -/
def jumpTarget (machine : Machine) (argument : Argument) : JumpTarget → Outcome (Nat × Nat)
  | .found address => .ok (machine.program, address)
  | .notFound => fail .labelNotFound
  | .none => do
    match ← machine.resolve argument with
    | .direct (.text name) => machine.globalLabel name
    | .direct (.number number) => machine.labelInProgram (.direct (.number number))
    | .localLabel letter => machine.labelInProgram (.localLabel letter)
    | _ => fail .invalidData

/-- Jump to a label. A jump from the keyboard forgets the calls. -/
def goto (argument : Argument) (target : JumpTarget) : Action Unit := do
  let machine ← get
  let (program, address) ← machine.jumpTarget argument target
  let machine := if machine.isRunning then machine else machine.clearReturns
  set { machine with program, address := some address }

/-- Call a label. A call from the keyboard while a program is suspended stops there on return. -/
def call (argument : Argument) (target : JumpTarget) : Action Unit := do
  let machine ← get
  let (program, address) ← machine.jumpTarget argument target
  if machine.isRunning then pushReturn (.program machine.program) machine.address
  else if !machine.returns.isEmpty then
    pushReturn (.program machine.program) machine.address
    modify fun machine =>
      { machine with
        returns := machine.returns.modifyTop fun frame => { frame with stops := true } }
  modify fun machine => { machine with isRunning := true, program, address := some address }

/-- Return with the error that has a number; zero returns without one. -/
def returnWithNumber (number : Nat) : Action Unit := do
  if number = 0 then returnFromCall .plain
  else
    match ErrorKind.ofCode? (number % 0x10000) with
    | some kind => if kind.isSignal then fail .outOfRange else returnWithError kind
    | none => fail .outOfRange

/-- Choose the function of the next search or integration. -/
def chooseFunction (choose : Machine → Machine) (name : List UInt8) : Action Unit := do
  let _ ← (← get).globalLabel name
  modify choose

/-- What a command that steers programs does; none if the command is of another kind. -/
def controlCommand? (opcode : Opcode) (argument : Argument) (target : JumpTarget) :
    Option (Action Unit) :=
  match opcode with
  | .null | .label | .pause | .menuVariable => some (pure ())
  | .goto => some (goto argument target)
  | .execute => some (call argument target)
  | .returnFromCall | .endOfProgram => some (returnFromCall .plain)
  | .returnYes => some (returnFromCall .yes)
  | .returnNo => some (returnFromCall .no)
  | .returnError => some (withNumber argument returnWithNumber)
  | .stop => some (fail .stop)
  | .run => some (modify fun machine => { machine with isRunning := true })
  | .function => some (withNumber argument fun n => beginFunction (n / 10) (n % 10))
  | .localFourLevel => some (setLocalMode false)
  | .localManyLevel => some (setLocalMode true)
  | .incrementSkipGreater => some (countLoop true argument)
  | .decrementSkipEqual => some (countLoop false argument)
  | .solveProgram => some (withLabel argument fun name =>
      chooseFunction (fun machine =>
        { machine with solver := { machine.solver with chosenFunction := name } }) name)
  | .integrateProgram => some (withLabel argument fun name =>
      chooseFunction (fun machine =>
        { machine with integrator := { machine.integrator with chosenFunction := name } }) name)
  | .solve => some (withName argument beginSolving)
  | .integrate => some (withName argument beginIntegrating)
  | .clearProgram => some (withLabel argument clearProgram)
  | .gotoLine => some (gotoLine argument)
  | .gotoNewProgram => some gotoNewProgram
  | .singleStep => some (modify nextLine)
  | .backStep => some (modify previousLine)
  | .deleteLines => some (withNumber argument deleteLines)
  | _ => none

/-! ## Messages, questions, the display and the printer -/

/-- Show a message. -/
def showMessage (text : String) : Action Unit :=
  modify fun machine => { machine with message := some text }

/-- Show a value behind what it was called by. -/
def view (argument : Argument) : Action Unit := do
  let machine ← get
  let value ← machine.valueAt argument
  let label ← machine.shownArgument argument
  showMessage s!"{label}={value.shown machine.flags}"

/-- Show the text register. -/
def viewAlpha : Action Unit := do showMessage (Text.ofBytes (← get).alpha)

/-- The value that is asked for; what does not exist counts as zero. -/
def askedValue (machine : Machine) (argument : Argument) : Outcome Value :=
  match machine.valueAt argument with
  | .error error => if error.kind = .nonexistent then .ok .zero else .error error
  | outcome => outcome

/-- Ask for a value: recall the present one and stop. -/
def ask (argument : Argument) : Action Unit := do
  let machine ← get
  let label ← machine.shownArgument argument
  let value ← machine.askedValue argument
  pushLift value
  modify fun machine =>
    { machine.setFlag Flags.liftDisabled true with
      question := some s!"{label}?{value.shown machine.flags}"
      prompt := some ⟨argument, label⟩ }
  fail .stop

/-- Recall the number of a waiting key, or wait for one. -/
def getKey : Action Unit := do
  let machine ← get
  match machine.keys.pop? with
  | some (key, keys) =>
    set { machine with keys }
    pushLift (.real (.ofNat key.number.toNat))
  | none =>
    set { machine with task := some .awaitingKey }
    fail .interruptible

/-- Light the pixel in row Y and column X, both counted from one. -/
def lightPixel : Action Unit := do
  let machine ← get
  machine.stack.require 2
  let col ← (← machine.stack.x).asReal
  let row ← (← machine.y).asReal
  if col < 1 ∨ row < 1 then fail .outOfRange
  let x ← Editor.zeroBased col
  let y ← Editor.zeroBased row
  let display ← machine.display.setPixel x y
  set (({ machine with display } : Machine).tell (.pixelChanged x y))

/-- What a command that shows or asks something does; none if the command is of another kind. -/
def outputCommand? (opcode : Opcode) (argument : Argument) : Option (Action Unit) :=
  match opcode with
  | .view => some (view argument)
  | .viewAlpha => some viewAlpha
  | .prompt => some do
    viewAlpha
    fail .stop
  | .input => some (ask argument)
  | .getKey => some getKey
  | .clearDisplay => some (modify fun machine =>
      ({ machine with display := .blank } : Machine).tell .repainted)
  | .pixel => some lightPixel
  | .printX => some printX
  | .printVariable => some (withName argument printVariable)
  | .printStack => some printStack
  | .printAlpha => some printAlpha
  | .printUser => some (printCatalogFrom 0)
  | .advancePaper => some (printText "")
  | _ => none

/-! ## All commands -/

/-- Recall the number of a literal. -/
def recallLiteral : Argument → Action Unit
  | .literal value _ => pushLift (.real value)
  | _ => failWith .internalError "NUMBER WITHOUT VALUE"

/-- What a literal, or a command on the whole machine, does; none if the command is of another kind. -/
def generalCommand? (opcode : Opcode) (argument : Argument) : Option (Action Unit) :=
  match opcode with
  | .number => some (recallLiteral argument)
  | .shortText => some (modify fun machine =>
      { machine with alpha := argument.text?.getD [] })
  | .longText => some do pushLift (← Value.ofText (argument.text?.getD []))
  | .random => some do
    let machine ← get
    let (value, generator) := machine.generator.next
    set { machine with generator }
    pushLift (.real value)
  | .seed => some do
    let seed ← (← (← get).stack.x).asReal
    modify fun machine => { machine with generator := .ofSeed seed }
  | .clearAll => some (modify fun machine => machine.reset machine.drawn)
  | _ => none

/-- What a command does; most of those that are not supported are listed but fail. -/
def effect (memory : Nat) (flags : Flags) (instruction : Instruction) (target : JumpTarget) : Action Unit :=
  let opcode := instruction.opcode
  let argument := instruction.argument
  let found :=
    (numericCommand? memory flags opcode argument).or <| (condition? opcode argument).or <|
      (stackCommand? opcode).or <| (modeCommand? opcode argument).or <|
      (memoryCommand? opcode argument).or <| (editingCommand? opcode argument).or <|
      (controlCommand? opcode argument target).or <| (outputCommand? opcode argument).or <|
      generalCommand? opcode argument
  found.getD (fail .notYetImplemented)

/-- Stack lift after a command. -/
def afterCommand (machine : Machine) (opcode : Opcode) : Machine :=
  if opcode.keepsLift then machine else machine.setFlag Flags.liftDisabled opcode.disablesLift

/-- Execute an instruction. -/
def perform (instruction : Instruction) (target : JumpTarget) : Action Unit := do
  let machine ← get
  effect machine.memory machine.flags instruction target
  modify fun machine => machine.afterCommand instruction.opcode

end Machine

end Keystroke
