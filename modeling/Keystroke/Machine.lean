import Keystroke.Display
import Keystroke.Editor
import Keystroke.Entry
import Keystroke.Frame
import Keystroke.Generator
import Keystroke.Integrator
import Keystroke.KeyQueue
import Keystroke.Program.Library
import Keystroke.Solver
import Keystroke.Stack
import Keystroke.Value.Shown
import Keystroke.Variables

/-!
# The machine

Everything a calculator knows, and the actions that change it. An action that fails keeps what it has
changed so far: there is no rollback.
-/

namespace Keystroke

/-- Work that goes on over several turns. -/
inductive Task where
  /-- The catalog is being printed; the place of the next variable in it. -/
  | printingCatalog (next : Nat)
  | awaitingKey
deriving DecidableEq, Repr, Inhabited

/-- A question for a value, asked by a program. -/
structure Prompt where
  /-- Where the value goes. -/
  argument : Argument
  label : String
deriving DecidableEq, Inhabited

/-- What the machine tells its host while it works. -/
inductive HostCall where
  /-- A line for the printer. -/
  | printed (line : List UInt8)
  /-- One pixel of the display has changed. -/
  | pixelChanged (x y : Nat)
  /-- The whole display has changed. -/
  | repainted
deriving DecidableEq, Repr, Inhabited

/-- A calculator. -/
structure Machine where
  /-- The current program. -/
  program : Nat := 0
  /-- The current line, or while running the next one; none is the top of the program. -/
  address : Option Nat := none
  isRunning : Bool := false
  /-- Whether lines are being entered into the program. -/
  isProgramming : Bool := false
  stack : Stack := .initial
  /-- The last X that a command consumed. -/
  lastX : Value := .zero
  /-- The text register. -/
  alpha : List UInt8 := []
  bindings : Variables := .empty
  library : Library := .initial
  returns : Returns := .initial
  flags : Flags := .initial
  /-- The number that is being keyed in. -/
  entry : Option Entry := none
  /-- A command that waits for its argument. -/
  pending : Option Opcode := none
  /-- The digits keyed in for the pending command. -/
  pendingDigits : List Char := []
  editor : Option Editor := none
  prompt : Option Prompt := none
  /-- The number of the last error, or zero. -/
  lastError : Nat := 0
  generator : Generator
  /-- What the source of random numbers has ready: the generator that a command takes which clears everything. -/
  drawn : Generator := default
  /-- Whether X is printed when the machine stops. -/
  printsOnStop : Bool := false
  keys : KeyQueue := .empty
  display : Display := .blank
  solver : Solver := {}
  integrator : Integrator := {}
  isInterrupted : Bool := false
  /-- The line that was executed last. -/
  executed : Option Nat := none
  task : Option Task := none
  /-- A message that the host has not seen. -/
  message : Option String := none
  /-- The text of a question that the host has not seen. -/
  question : Option String := none
  /-- The errors that the host has not seen, the oldest first. -/
  errors : List Error := []
  /-- What the host was told, the latest first. -/
  calls : List HostCall := []
  /-- The number of the next storage of an array. -/
  nextStorage : Nat := 0
  /-- New dimensions with so many elements find no memory. How much there is depends on the host. -/
  memory : Nat := Grid.sizeLimit
  /-- Whether the program that runs the machine has crashed. What is asked of the machine afterwards has no
  meaning. -/
  hasCrashed : Bool := false

/-- Something done to a machine that may fail. -/
abbrev Action := ExceptT Error (StateM Machine)

/-- Do something to a machine: the outcome, and the machine that is left. -/
def Action.on {α : Type} (action : Action α) (machine : Machine) : Outcome α × Machine :=
  action.run.run machine

/-- Do something to a machine and ignore how it ends. -/
def Action.attempt {α : Type} (action : Action α) (machine : Machine) : Machine :=
  (action.on machine).2

namespace Machine

/-- The name of the variable that holds the numbered registers. -/
def registersName : List UInt8 := [82, 69, 71, 83]

/-- The level that new locals get: the depth of calls. -/
def level (machine : Machine) : Int := machine.returns.depth

/-- Tell the host something. -/
def tell (machine : Machine) (call : HostCall) : Machine :=
  { machine with calls := call :: machine.calls }

/-- The registers of a new machine: twenty-five zeros, if there is memory for them. -/
def newRegisters (memory : Nat) : Variables :=
  match Grid.filled memory 25 1 (Cell.number 0) with
  | .ok grid => ⟨[⟨registersName, Variable.globalLevel, 0, .realMatrix (some 0) grid⟩]⟩
  | .error _ => .empty

/-- A new machine on a host with some memory. -/
def new (memory : Nat) (generator : Generator) : Machine :=
  { generator, bindings := newRegisters memory, nextStorage := 1, memory }

/-- A new machine, which has memory for whatever fits a state file. -/
def initial (generator : Generator) : Machine := new Grid.sizeLimit generator

instance : Inhabited Machine := ⟨initial default⟩

/-- Make the machine new. The host keeps what it was told. -/
def reset (machine : Machine) (generator : Generator) : Machine :=
  { new machine.memory generator with calls := .repainted :: machine.calls }

/-- The value that a name has in the present call. -/
def recallName (machine : Machine) (name : List UInt8) : Option Value :=
  machine.bindings.value? name machine.level

/-- The current line as shown while a program is being entered. -/
def currentLine (machine : Machine) : Outcome String :=
  match machine.library.get? machine.program, machine.address with
  | none, _ => .ok ""
  | some program, none => .ok ("00 \x7b " ++ s!"{program.size}-Byte Prgm" ++ " \x7d")
  | some program, some address => do
    let isLast := machine.program + 1 == machine.library.count
    let line := (← program.read address).instruction
    return Decimal.paddedDigits 2 (program.lineNumber address) ++ " " ++ Library.lineText isLast line

/-- Whether a search for a root is among the calls. -/
def isSolving (machine : Machine) : Bool :=
  machine.returns.items.any fun frame => frame.caller == .solver

/-- Whether an integration is among the calls. -/
def isIntegrating (machine : Machine) : Bool :=
  machine.returns.items.any fun frame => frame.caller == .integrator

/-- Whether every executed line is printed. -/
def isTracing (machine : Machine) : Bool :=
  machine.flags.get Flags.printTrace && machine.flags.get Flags.printerEnabled &&
    machine.flags.get Flags.printerExists

/-- Set or clear a flag. -/
def setFlag (machine : Machine) (flag : Nat) (value : Bool) : Machine :=
  { machine with flags := machine.flags.set flag value }

/-- Put a value on the stack, or in place of X while stack lift is disabled. -/
def pushLifting (machine : Machine) (value : Value) : Machine :=
  { machine with
    stack :=
      if machine.flags.get Flags.liftDisabled then machine.stack.setX value
      else machine.stack.push value }

end Machine

end Keystroke
