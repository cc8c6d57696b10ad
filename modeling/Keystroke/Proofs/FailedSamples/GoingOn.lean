import Mathlib
import Keystroke.Machine.Returning
import Keystroke.Proofs.Actions
import Keystroke.Proofs.Calls.SearchSteps

/-!
# How a search goes on

Whatever sample it is given, a solver in some stage calls its function for another one, or finishes and
goes back to where the search was begun. Only a function that cannot be called any more, or a variable that
cannot be stored, ends in an error. The calls of the machine stay as they are below the new sample.
-/

namespace Keystroke

open Keystroke.Action

theorem Variables.checkName_of_store_eq_error {table : Variables} {name : List UInt8} {value : Value}
    {level : Int} {error : Error} (refused : table.store name value level = .error error) :
    Variable.checkName name = .error error := by
  cases allowed : Variable.checkName name with
  | error other =>
      rw [Variables.store, allowed] at refused
      cases refused
      rfl
  | ok _ =>
      rw [Variables.store, allowed] at refused
      simp only [bind, Except.bind] at refused
      split at refused <;> cases refused

theorem Variable.isSignal_of_checkName_eq_error {name : List UInt8} {error : Error}
    (refused : checkName name = .error error) : error.kind.isSignal = false := by
  rw [checkName] at refused
  split_ifs at refused
  · cases refused
    rfl
  · cases refused
    rfl

namespace Machine

variable {machine after : Machine}

/-- The function that is solved still has a label, and its variable can be stored. -/
structure CanSample (machine : Machine) : Prop where
  named : machine.solver.function ≠ []
  labelled : machine.library.findGlobal? machine.solver.function ≠ none
  storable : Variable.checkName machine.solver.variableName = .ok ()

/-- The solver has called its function from the calls of a machine. -/
structure SamplesAgain (machine after : Machine) : Prop where
  returns : ∃ frame : Frame, frame.caller = .solver ∧
    after.returns = { machine.returns with items := frame :: machine.returns.items }
  place : ∃ address, after.address = some address ∧
    machine.library.findGlobal? machine.solver.function = some (after.program, address)
  stored : machine.bindings.store machine.solver.variableName (.real after.solver.currentPoint)
    machine.level = .ok after.bindings
  stage : Solver.IsStage after.solver.stage
  purpose : after.solver.purpose = machine.solver.purpose
  others : after = { machine with
    program := after.program
    address := after.address
    bindings := after.bindings
    returns := after.returns
    solver := after.solver }

/-- The solver has finished in the calls of a machine, and has gone back to where the search was begun. -/
structure FinishesSolving (machine after : Machine) : Prop where
  returns : after.returns = machine.returns
  program : after.program = machine.solver.program
  address : after.address = machine.solver.address
  stage : after.solver.stage = 0
  root : ∃ root, after.stack.x = .ok (.real root) ∧
    machine.bindings.store machine.solver.variableName (.real root) machine.level = .ok after.bindings

/-- How a search can go on in the calls of a machine. -/
inductive GoesOn (machine : Machine) : Outcome Unit × Machine → Prop
  | sample {after : Machine} (samples : machine.SamplesAgain after) :
    GoesOn machine (.error (.plain .run), after)
  | resume {after : Machine} (finishes : machine.FinishesSolving after)
    (runs : machine.solver.keepsRunning = true) (same : after.isRunning = machine.isRunning) :
    GoesOn machine (.ok (), after)
  | stop {after : Machine} (finishes : machine.FinishesSolving after)
    (stops : machine.solver.keepsRunning = false) : GoesOn machine (.error (.plain .stop), after)
  | refuse {after : Machine} {error : Error} (cannot : ¬ machine.CanSample)
    (shown : error.kind.isSignal = false) (returns : after.returns = machine.returns) :
    GoesOn machine (.error error, after)

/-- A variable of the search that cannot be stored refuses the search. -/
theorem goesOn_of_store {error : Error} {value : Value} {level : Int} {table : Variables}
    (refused : table.store machine.solver.variableName value level = .error error)
    (returns : after.returns = machine.returns) : machine.GoesOn (.error error, after) := by
  have named := Variables.checkName_of_store_eq_error refused
  refine .refuse (fun can => ?_) (Variable.isSignal_of_checkName_eq_error named) returns
  rw [can.storable] at named
  cases named

theorem on_storeName_ok {name : List UInt8} {value : Value} {bindings : Variables}
    (stored : machine.bindings.store name value machine.level = .ok bindings) :
    (storeName name value).on machine = (.ok (), { machine with bindings }) := by
  simp [storeName, on_bind, stored]

theorem on_storeName_error {name : List UInt8} {value : Value} {error : Error}
    (refused : machine.bindings.store name value machine.level = .error error) :
    (storeName name value).on machine = (.error error, machine) := by
  simp [storeName, on_bind, refused]

/-- The frame of a sample that the solver asks a machine for. -/
def sampleFrame (machine : Machine) : Frame where
  caller := .solver
  address := none
  liftDisabled := machine.flags.get Flags.liftDisabled

theorem on_pushReturn (room : machine.returns.isFull = false) :
    (pushReturn .solver none).on machine = (.ok (), { machine with
      returns := { machine.returns with items := machine.sampleFrame :: machine.returns.items } }) := by
  have pushed : machine.returns.push machine.sampleFrame =
      .ok { machine.returns with items := machine.sampleFrame :: machine.returns.items } := by
    rw [BoundedStack.push, room]
    rfl
  rw [sampleFrame] at pushed
  simp [pushReturn, on_bind, pushed, sampleFrame]

theorem goesOn_callSample {solver : Solver} (stage : Solver.IsStage solver.stage)
    (purpose : solver.purpose = machine.solver.purpose) (room : machine.returns.isFull = false) :
    machine.GoesOn ((callSample .solver machine.solver.function machine.solver.variableName
      solver.currentPoint).on { machine with solver }) := by
  cases labelled : machine.library.findGlobal? machine.solver.function with
  | none =>
      simp only [callSample, on_bind, on_get, labelled]
      exact .refuse (fun can => can.labelled labelled) rfl rfl
  | some place =>
      obtain ⟨program, address⟩ := place
      simp only [callSample, on_bind_ok (on_get _), labelled]
      cases stored : machine.bindings.store machine.solver.variableName (.real solver.currentPoint)
          machine.level with
      | error error =>
          have refuses : (storeName machine.solver.variableName (.real solver.currentPoint)).on
              { machine with solver } = (.error error, { machine with solver }) :=
            on_storeName_error stored
          rw [on_bind_error refuses]
          exact goesOn_of_store stored rfl
      | ok bindings =>
          have stores : (storeName machine.solver.variableName (.real solver.currentPoint)).on
              { machine with solver } = (.ok (), { machine with solver, bindings }) :=
            on_storeName_ok stored
          have pushes : (pushReturn .solver none).on
              { machine with solver, bindings, program, address := some address } =
                (.ok (), { machine with
                  solver
                  bindings
                  program
                  address := some address
                  returns := { machine.returns with
                    items := machine.sampleFrame :: machine.returns.items } }) :=
            on_pushReturn room
          rw [on_bind_ok stores, on_bind_ok (on_modify _ _), on_bind_ok pushes]
          exact .sample
            { returns := ⟨machine.sampleFrame, rfl, rfl⟩
              place := ⟨address, rfl, labelled⟩
              stored
              stage
              purpose
              others := rfl }

theorem goesOn_sampleForSolver (room : machine.returns.isFull = false) (point : UInt8)
    (stage : Solver.Stage) : machine.GoesOn ((sampleForSolver point stage).on machine) := by
  rw [sampleForSolver, on_bind, on_get]
  by_cases nameless : machine.solver.function.isEmpty = true
  · simp only [nameless, if_true]
    exact .refuse (fun can => can.named (List.isEmpty_iff.mp nameless)) rfl rfl
  · simp only [nameless, Bool.false_eq_true, if_false]
    exact goesOn_callSample (Solver.isStage_code stage) rfl room

theorem x_putResults (machine : Machine) (x : Binary64) (rest : List Value) :
    (machine.putResults (.real x :: rest)).stack.x = .ok (.real x) := by
  rw [putResults]
  dsimp only
  split <;> rfl

theorem goesOn_finishSolving (machine : Machine) (verdict : Verdict) :
    machine.GoesOn ((finishSolving verdict).on machine) := by
  have purpose : ({ machine.solver with stage := 0 } : Solver).answer.2.purpose = machine.solver.purpose :=
    Solver.purpose_answer _
  have stage : ({ machine.solver with stage := 0 } : Solver).answer.2.stage = 0 := by
    rw [Solver.answer]
    split <;> rfl
  rw [finishSolving, on_bind_ok (on_get _)]
  generalize ({ machine.solver with stage := 0 } : Solver).answer = answered at purpose stage ⊢
  obtain ⟨root, solver⟩ := answered
  dsimp only at purpose stage ⊢
  have named : solver.variableName = machine.solver.variableName :=
    congrArg Solver.Purpose.variableName purpose
  rw [on_bind_ok (on_set _ _), named]
  cases stored : machine.bindings.store machine.solver.variableName (.real root) machine.level with
  | error error =>
      have refuses : (storeName machine.solver.variableName (.real root)).on { machine with solver } =
          (.error error, { machine with solver }) := on_storeName_error stored
      rw [on_bind_error refuses]
      exact goesOn_of_store stored rfl
  | ok bindings =>
      have stores : (storeName machine.solver.variableName (.real root)).on { machine with solver } =
          (.ok (), { machine with solver, bindings }) := on_storeName_ok stored
      have finishes (after : Machine) (same : after.returns = machine.returns)
          (program : after.program = solver.program) (address : after.address = solver.address)
          (isIdle : after.solver = solver) (kept : after.bindings = bindings)
          (x : after.stack.x = .ok (.real root)) : machine.FinishesSolving after :=
        { returns := same
          program := program.trans (congrArg Solver.Purpose.program purpose)
          address := address.trans (congrArg Solver.Purpose.address purpose)
          stage := isIdle ▸ stage
          root := ⟨root, x, kept ▸ stored⟩ }
      have keeps : solver.keepsRunning = machine.solver.keepsRunning :=
        congrArg Solver.Purpose.keepsRunning purpose
      rw [on_bind_ok stores, on_bind_ok (on_modify _ _), on_ite]
      cases runs : solver.keepsRunning with
      | true => exact .resume (finishes _ rfl rfl rfl rfl rfl (x_putResults ..)) (keeps ▸ runs) rfl
      | false => exact .stop (finishes _ rfl rfl rfl rfl rfl (x_putResults ..)) (keeps ▸ runs)

/-- Whatever else of a search has changed, it goes on as it would. -/
theorem GoesOn.of_purpose {solver : Solver} (purpose : solver.purpose = machine.solver.purpose)
    {result : Outcome Unit × Machine} (goesOn : ({ machine with solver } : Machine).GoesOn result) :
    machine.GoesOn result := by
  have function : solver.function = machine.solver.function := congrArg Solver.Purpose.function purpose
  have named : solver.variableName = machine.solver.variableName :=
    congrArg Solver.Purpose.variableName purpose
  have keeps : solver.keepsRunning = machine.solver.keepsRunning :=
    congrArg Solver.Purpose.keepsRunning purpose
  have finishesSame (after : Machine) (finishes : ({ machine with solver } : Machine).FinishesSolving after) :
      machine.FinishesSolving after :=
    { finishes with
      program := finishes.program.trans (congrArg Solver.Purpose.program purpose)
      address := finishes.address.trans (congrArg Solver.Purpose.address purpose)
      root := named ▸ finishes.root }
  cases goesOn with
  | sample samples =>
      exact .sample
        { samples with
          place := function ▸ samples.place
          stored := named ▸ samples.stored
          purpose := samples.purpose.trans purpose
          others := samples.others }
  | resume finishes runs same => exact .resume (finishesSame _ finishes) (keeps ▸ runs) same
  | stop finishes stops => exact .stop (finishesSame _ finishes) (keeps ▸ stops)
  | refuse cannot shown returns =>
      refine .refuse (fun can => cannot ?_) shown returns
      exact ⟨function ▸ can.named, function ▸ can.labelled, named ▸ can.storable⟩

theorem goesOn_finishing {solver : Solver} (purpose : solver.purpose = machine.solver.purpose)
    (verdict : Verdict) : machine.GoesOn ((finishSolving verdict).on { machine with solver }) :=
  (goesOn_finishSolving { machine with solver } verdict).of_purpose purpose

theorem goesOn_sampling {solver : Solver} (purpose : solver.purpose = machine.solver.purpose)
    (room : machine.returns.isFull = false) (point : UInt8) (stage : Solver.Stage) :
    machine.GoesOn ((sampleForSolver point stage).on { machine with solver }) := by
  have roomHere : ({ machine with solver } : Machine).returns.isFull = false := room
  exact (goesOn_sampleForSolver roomHere point stage).of_purpose purpose

theorem goesOn_takeSample (stage : Solver.IsStage machine.solver.stage)
    (room : machine.returns.isFull = false) (result : Option Binary64) :
    machine.GoesOn ((takeSample result).on machine) := by
  rw [takeSample, on_bind_ok (on_get _), on_bind_ok (on_set _ _), on_ite]
  split
  · apply goesOn_finishing
    rfl
  extract_lets given patient
  have patience : patient.purpose = machine.solver.purpose ∧ patient.stage = machine.solver.stage := by
    dsimp only [patient]
    split <;> exact ⟨rfl, rfl⟩
  obtain ⟨purpose, sameStage⟩ := patience
  clear_value patient
  obtain ⟨inStage, found⟩ := stage.exists_stage
  obtain ⟨asks, purposeAfter⟩ := patient.continues_advance (sameStage ▸ found) result
  rw [purpose] at purposeAfter
  generalize patient.advance result = advanced at asks purposeAfter ⊢
  obtain ⟨step, solver⟩ := advanced
  rw [on_bind_ok (on_modify _ _)]
  cases step with
  | sample point next => exact goesOn_sampling purposeAfter room point next
  | finish verdict => exact goesOn_finishing purposeAfter verdict
  | idle => exact absurd rfl asks

/-- A solver that was told to stop does not go on with the program when it is done. -/
def toldToStop (machine : Machine) (stops : Bool) : Machine :=
  { machine with
    solver := { machine.solver with keepsRunning := machine.solver.keepsRunning && !stops } }

theorem goesOn_returnToSolver (stage : Solver.IsStage machine.solver.stage)
    (room : machine.returns.isFull = false) (stops : Bool) :
    (machine.toldToStop stops).GoesOn ((returnToSolver true stops).on machine) := by
  have goesOn (told : Machine) (same : told.solver.stage = machine.solver.stage)
      (sameReturns : told.returns = machine.returns) :
      told.GoesOn (Action.on (do
        let machine ← get
        if machine.solver.stage = 0 then failWith .internalError "SOLVER IDLE"
        takeSample none) told) := by
    have begun : ¬ told.solver.stage = 0 := by
      intro idle
      rw [← same, idle] at stage
      exact absurd stage.1 (by decide)
    rw [on_bind_ok (on_get _)]
    simp only [begun, if_false]
    exact goesOn_takeSample (same ▸ stage) (sameReturns ▸ room) none
  cases stops with
  | true =>
      have same : machine.toldToStop true =
          { machine with solver := { machine.solver with keepsRunning := false } } := by
        simp [toldToStop]
      rw [same]
      exact goesOn _ rfl rfl
  | false =>
      have same : machine.toldToStop false = machine := by
        simp [toldToStop]
      rw [same]
      exact goesOn machine rfl rfl

end Machine

end Keystroke
