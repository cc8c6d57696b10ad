import Keystroke.Machine.Calls

/-!
# Solving and integrating

The solver and the integrator call programs. Each sample is a call whose frame names them as the
caller; when it returns they go on, and ask for the next sample or finish. A program that started them
goes on with the result; otherwise the machine stops and shows it.
-/

namespace Keystroke.Machine

/-- Whether what is started now hands control back to the running program. -/
def keepsRunning (machine : Machine) : Bool :=
  machine.isRunning && !(machine.returns.top?.map Frame.stops).getD false

/-- The number in a variable, if the variable exists. -/
def realNamed (machine : Machine) (name : List UInt8) : Outcome (Option Binary64) :=
  match machine.recallName name with
  | none => .ok none
  | some value => return some (← value.asReal)

/-- Call the program with a global label on behalf of the solver or the integrator, with a value for
their variable. -/
def callSample (caller : Caller) (function variableName : List UInt8) (value : Binary64) :
    Action Unit := do
  match (← get).library.findGlobal? function with
  | none => fail .labelNotFound
  | some (program, address) =>
    storeName variableName (.real value)
    modify fun machine => { machine with program, address := some address }
    pushReturn caller none
    fail .run

/-- The program that starts something from the keyboard is in no call. -/
def clearReturnsUnlessRunning : Action Unit :=
  modify fun machine => if machine.isRunning then machine else machine.clearReturns

/-! ## The solver -/

/-- Have the function sampled at a point. -/
def sampleForSolver (point : UInt8) (stage : Solver.Stage) : Action Unit := do
  let machine ← get
  if machine.solver.function.isEmpty then fail .nonexistent
  let solver := machine.solver.sampling point stage
  set { machine with solver }
  callSample .solver solver.function solver.variableName solver.currentPoint

/-- What is shown when the solver is done. -/
def solverMessage (flags : Flags) (name : List UInt8) (root : Binary64) (verdict : Verdict) :
    String :=
  let line := s!"{Text.ofBytes name}={(Value.real root).shown flags}"
  match verdict.text? with
  | none => line
  | some text => s!"{line}\n{text}"

/-- Put the results of the solver on the stack, X first, over what was there. -/
def putResults (machine : Machine) (results : List Value) : Machine :=
  { machine with
    stack :=
      if machine.stack.isBig then
        { machine.stack with
          values := results ++ machine.stack.values.drop results.length }
      else .ofValues false results }

/-- Leave the root in X and in the variable, the estimate before it in Y, the value of the function in
Z and the number of the verdict in T. -/
def finishSolving (verdict : Verdict) : Action Unit := do
  let machine ← get
  let (root, solver) := { machine.solver with stage := 0 : Solver }.answer
  set { machine with solver }
  storeName solver.variableName (.real root)
  modify fun machine =>
    { machine.putResults
        [.real root, .real solver.previousPoint, .real solver.currentResult,
         .real (.ofNat verdict.code)] with
      program := solver.program
      address := solver.address }
  if !solver.keepsRunning then
    modify fun machine =>
      { machine with
        message := some (solverMessage machine.flags solver.variableName root verdict) }
    fail .stop

/-- Give the solver its sample, which is none if the function failed. A zero ends the search. -/
def takeSample (result : Option Binary64) : Action Unit := do
  let machine ← get
  let currentResult := result.getD Binary64.largest
  let solver := { machine.solver with currentResult : Solver }
  set { machine with solver }
  if (result.map Binary64.isZero).getD false then finishSolving .root
  else
    let patient := if result.isSome then solver.lessPatience else solver
    let (step, solver) := patient.advance result
    modify fun machine => { machine with solver }
    match step with
    | .sample point stage => sampleForSolver point stage
    | .finish verdict => finishSolving verdict
    | .idle => failWith .internalError "SOLVER IDLE"

/-- Go on solving after the function has returned or failed. -/
def returnToSolver (failed stops : Bool) : Action Unit := do
  if stops then
    modify fun machine =>
      { machine with solver := { machine.solver with keepsRunning := false } }
  let machine ← get
  if machine.solver.stage = 0 then failWith .internalError "SOLVER IDLE"
  if failed then takeSample none
  else
    match ← machine.stack.x with
    | .real x => takeSample (some x)
    | _ => takeSample none

/-- Begin to solve for a variable; its value and X are the guesses. -/
def beginSolving (name : List UInt8) : Action Unit := do
  let machine ← get
  if machine.isSolving then fail .solveWithinSolve
  let first := (← machine.realNamed name).getD 0
  let second ← (← machine.stack.x).asReal
  clearReturnsUnlessRunning
  modify fun machine =>
    { machine with
      alpha := name
      solver :=
        { machine.solver with
          variableName := name
          function := machine.solver.chosenFunction
          program := machine.program
          address := machine.address
          keepsRunning := machine.keepsRunning : Solver }.start first second }
  sampleForSolver Solver.lowerEnd .firstGuess

/-! ## The integrator -/

/-- Have the integrand sampled. -/
def sampleForIntegrator : Action Unit := do
  let integrator := (← get).integrator
  if integrator.function.isEmpty then fail .nonexistent
  callSample .integrator integrator.function integrator.variableName integrator.sampled

/-- Leave the integral in X and the uncertainty in Y. -/
def finishIntegrating : Action Unit := do
  let integrator := (← get).integrator
  modify fun machine =>
    { machine with integrator := { integrator with stage := 0 } }
  pushLift (.real integrator.difference)
  push (.real integrator.result)
  modify fun machine =>
    { machine.setFlag Flags.liftDisabled false with
      program := integrator.program
      address := integrator.address }
  if !integrator.keepsRunning then
    modify fun machine =>
      { machine with
        message := some s!"∫={(Value.real integrator.result).shown machine.flags}" }
    fail .stop

/-- Go on integrating with X as the sample; what is not real does not count. -/
def returnToIntegrator : Action Unit := do
  let machine ← get
  let result :=
    match machine.stack.values with
    | .real x :: _ => some x
    | _ => none
  let (step, integrator) := machine.integrator.advance result
  set { machine with integrator }
  match step with
  | .sample => sampleForIntegrator
  | .finish => finishIntegrating
  | .idle => failWith .internalError "INTEGRATOR IDLE"

/-- The name of the variable with the lower limit. -/
def lowerLimitName : List UInt8 := [76, 76, 73, 77]

/-- The name of the variable with the upper limit. -/
def upperLimitName : List UInt8 := [85, 76, 73, 77]

/-- The name of the variable with the accuracy. -/
def accuracyName : List UInt8 := [65, 67, 67]

/-- A limit of the integration, which must exist. -/
def limitNamed (machine : Machine) (name : List UInt8) : Outcome Binary64 := do
  match ← machine.realNamed name with
  | some limit => return limit
  | none => fail .nonexistent

/-- Begin to integrate over a variable. -/
def beginIntegrating (name : List UInt8) : Action Unit := do
  let machine ← get
  if machine.isIntegrating then fail .integrateWithinIntegrate
  let lower ← machine.limitNamed lowerLimitName
  let upper ← machine.limitNamed upperLimitName
  let accuracy := ((← machine.realNamed accuracyName).getD 0).maximum 0
  clearReturnsUnlessRunning
  modify fun machine =>
    { machine with
      alpha := name
      integrator :=
        { machine.integrator with
          variableName := name
          function := machine.integrator.chosenFunction
          program := machine.program
          address := machine.address
          keepsRunning := machine.keepsRunning : Integrator }.start lower upper accuracy }
  returnToIntegrator

end Keystroke.Machine
