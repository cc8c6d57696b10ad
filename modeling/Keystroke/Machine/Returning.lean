import Keystroke.Machine.Printing
import Keystroke.Machine.Solving

/-!
# Returning and failing

Returns from calls, and what an error does: inside a solved function it may become a failed sample;
otherwise it stops a running program at the line that raised it.
-/

namespace Keystroke

/-- How a call returns. -/
inductive ReturnKind where
  | plain
  /-- The caller goes on with its next line. -/
  | yes
  /-- The caller skips its next line. -/
  | no
deriving DecidableEq, Repr, Inhabited

namespace Machine

/-- Skip the next line, but not the end. -/
def skipLine (machine : Machine) : Machine :=
  match machine.address, machine.library.get? machine.program with
  | some address, some program =>
    if address < program.endAddress then { machine with address := some (program.next address) }
    else machine
  | _, _ => machine

/-- Go back to the top of the program from behind its end. -/
def leaveEnd (machine : Machine) : Machine :=
  match machine.address, machine.library.get? machine.program with
  | some address, some program =>
    if program.endAddress < address then { machine with address := none } else machine
  | _, _ => machine

/-- A program that is in no call has reached its end. -/
def endProgram : Action Unit := do
  modify fun machine => ((machine.purgeLevel 0).checkEditor).leaveEnd
  fail .stop

/-- Go on in the program that a frame names. -/
def resume (frame : Frame) (kind : ReturnKind) : Action Unit := do
  match frame.caller with
  | .solver => returnToSolver false false
  | .integrator => returnToIntegrator
  | .program index =>
    modify fun machine =>
      let resumed : Machine := { machine with program := index, address := frame.address }
      if kind = .no then resumed.skipLine else resumed
    if frame.stops then fail .stop

/-- Return from the present call. While no program runs, all calls are forgotten instead. -/
def returnFromCall (kind : ReturnKind) : Action Unit := do
  let machine ← get
  if !machine.isRunning then set { machine.clearReturns with address := none }
  else
    if machine.callSavesStack then finishFunction
    match ← popReturn with
    | none => endProgram
    | some frame => resume frame kind

/-- Leave the calls down to the solver. -/
def unwind : Action Bool := do unwindToSolver (← get).returns.depth

/-- Give the solver a failed sample in place of an error. -/
def failSample : Action Unit := do
  let stops ← unwind
  returnToSolver true stops

/-- Return from the present call with an error, which is raised at the line that called. -/
def returnWithError (error : Error) : Action Unit := do
  let machine ← get
  if error.kind.isFailedSample && machine.isSolving then failSample
  else
    if machine.callSavesStack then discardFunction
    match ← popReturn with
    | some { caller := .program index, address, .. } =>
      modify fun machine =>
        { machine with
          program := index
          address
          executed := address.bind fun address =>
            (machine.library.get? index).bind fun program => program.previous address }
    | _ => pure ()
    throw error

/-- Add an error to those that the host will see. -/
def addError (machine : Machine) (error : Error) : Machine :=
  { machine with errors := machine.errors ++ [error] }

/-- Halt the program and drop unfinished work. -/
def stop (machine : Machine) : Machine :=
  let stopped : Machine := { machine with isRunning := false, task := none }
  if stopped.printsOnStop then
    match printX.on { stopped with printsOnStop := false } with
    | (.ok (), printed) => printed
    | (.error error, printed) => printed.addError error
  else stopped

/-- The program that runs the machine has crashed. -/
def crash (machine : Machine) : Machine :=
  { machine with hasCrashed := true, isRunning := false, task := none }

/-- Remember an error and show it. -/
def report (machine : Machine) (error : Error) : Machine :=
  ({ machine with task := none, lastError := error.kind.code } : Machine).addError error

/-- What an error does to the machine. One that the solver takes as a failed sample may lead to another
one, which a solver further out may take. -/
def handleWithin : Nat → Error → Machine → Machine
  | fuel, error, machine =>
    match error.kind with
    | .yes | .run | .interruptible => machine
    | .no => if machine.isRunning then machine.skipLine else machine
    | .stop => machine.stop
    | .crash => machine.crash
    | kind =>
      if !machine.isRunning then machine.report error
      else if machine.flags.get Flags.errorIgnored then
        { machine.setFlag Flags.errorIgnored false with lastError := kind.code }
      else
        match fuel, kind.isFailedSample && machine.isSolving with
        | fuel + 1, true =>
          match failSample.on machine with
          | (.ok (), left) => left
          | (.error next, left) => handleWithin fuel next left
        | _, _ => ({ machine with address := machine.executed } : Machine).stop.report error

/-- What an error does to the machine. -/
def handle (machine : Machine) (error : Error) : Machine :=
  handleWithin (machine.returns.depth + 1) error machine

/-- Do something, and let the machine deal with an error. -/
def performing (action : Action Unit) (machine : Machine) : Machine :=
  match action.on machine with
  | (.ok (), left) => left
  | (.error error, left) => left.handle error

end Machine

end Keystroke
