import Keystroke.Machine.Command

/-!
# Execution

The host lets the machine work in slices of a limited count of turns. A turn executes one line or goes
on with unfinished work. A slice ends early when there is something that the host has to see.
-/

namespace Keystroke

/-- What the host is told at the end of a slice. -/
inductive Event where
  | stopped
  | running
  | errors (errors : List Error)
  | message (text : String)
  /-- The machine waits for a value. -/
  | input (question : String)
deriving DecidableEq, Inhabited

namespace Machine

/-- Execute the line at the current address. -/
def step : Action Unit := do
  let machine ← get
  let address := machine.address.getD 0
  let (fetched, library) ← machine.library.fetch machine.program address true
  let line := fetched.instruction
  let moved : Machine :=
    { machine with library, executed := some address, address := some fetched.next }
  set <|
    if moved.isTracing && !line.isEnd then (printText line.listing).attempt moved else moved
  perform line fetched.target

/-- Go on with unfinished work. -/
def continueTask : Task → Action Unit
  | .awaitingKey => getKey
  | .printingCatalog next => printCatalogFrom next

/-- Execute a line, or go on with unfinished work. -/
def turn (machine : Machine) : Machine :=
  match machine.task with
  | some task => performing (continueTask task) { machine with task := none }
  | none => performing step machine

/-- Whether a program runs or work is unfinished. -/
def isBusy (machine : Machine) : Bool := machine.isRunning || machine.task.isSome

/-- Whether there is something that the host has not seen. -/
def hasNews (machine : Machine) : Bool :=
  !machine.errors.isEmpty || machine.message.isSome || machine.question.isSome

/-- Whether nothing happens until a key is pressed. -/
def awaitsKey (machine : Machine) : Bool :=
  machine.task == some .awaitingKey && machine.keys.keys.isEmpty

/-- Stop because the host asked for it. -/
def stopInterrupted (machine : Machine) : Machine :=
  ({ machine with isInterrupted := false } : Machine).stop.addError (.plain .interrupted)

/-- Work for at most the given count of turns, until there is something that the host has to see. -/
def work : Nat → Machine → Machine
  | 0, machine => machine
  | turns + 1, machine =>
    if !machine.isBusy then machine
    else if machine.isInterrupted then machine.stopInterrupted
    else if machine.awaitsKey then machine
    else
      let next := machine.turn
      if next.hasNews then next else work turns next

/-- Take what the host has to see first: errors, then a message, then a question. -/
def takeNews (machine : Machine) : Event × Machine :=
  if !machine.errors.isEmpty then (.errors machine.errors, { machine with errors := [] })
  else
    match machine.message, machine.question with
    | some text, _ => (.message text, { machine with message := none })
    | none, some question => (.input question, { machine with question := none })
    | none, none => (if machine.isBusy then .running else .stopped, machine)

/-- Let the machine work for a slice. What the host has not yet seen comes first. -/
def execute (machine : Machine) (turns : Nat) : Event × Machine :=
  if machine.hasNews then machine.takeNews else (work turns machine).takeNews

/-- Ask the machine to stop. One that is not busy forgets a pending command and a question instead. -/
def interrupt (machine : Machine) : Machine :=
  if machine.isBusy then { machine with isInterrupted := true }
  else { machine with pending := none, pendingDigits := [], prompt := none }

end Machine

end Keystroke
