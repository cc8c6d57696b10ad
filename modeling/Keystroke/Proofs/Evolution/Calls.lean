import Mathlib
import Keystroke.Proofs.Calls.Returns
import Keystroke.Proofs.Evolution.Commands

/-!
# What calls and searches leave

A call may switch the mode of the stack and put another stack in the place of its caller's, and a return puts
back what was there in the mode that it had. Searches leave their results on the stack, and errors drop calls.
What a call keeps does not move the course. Calls, returns and searches move it.
-/

namespace Keystroke

open Keystroke.Action

namespace Machine

variable {moves : Bool} {start machine : Machine}

/-! ## Packages -/

/-- The mode and the values of a caller's stack are put back as they fit. -/
theorem Evolves.setBig (evolved : start.Evolves moves machine) (isBig : Bool) :
    start.Evolves moves { machine with stack := machine.stack.setBig isBig } :=
  { evolved with isFitted := fun _ => machine.stack.isFitted_setBig isBig }

theorem Evolves.purgeLevel (evolved : start.Evolves moves machine) (level : Int) :
    start.Evolves moves (machine.purgeLevel level) :=
  { evolved with hasMadeTable := fun made => .purgeFromLevel (evolved.hasMadeTable made) level }

theorem evolves_keepPackage (package : CallPackage) : (keepPackage package).Evolves moves start := by
  refine (evolves_adopt _).bind fun value => evolves_get fun machine evolved => ?_
  refine evolves_found fun stored stores => evolves_set ?_
  exact evolved.keepLocal evolved (.inl rfl) stores fun _ => rfl

theorem evolves_beginFunction (inputs outputs : Nat) : (beginFunction inputs outputs).Evolves moves start := by
  have begins (package : CallPackage) : (do
      keepPackage package
      modify fun machine : Machine =>
        { machine with stack := .ofValues machine.stack.isBig (machine.stack.values.take inputs) } :
      Action Unit).Evolves moves start :=
    (evolves_keepPackage package).bind fun _ => evolves_modify fun _ evolved =>
      { evolved with isFitted := fun _ => Stack.isFitted_ofValues _ _ }
  refine evolves_get fun machine evolved => evolves_ite (evolves_found fun _ _ => ?_) ?_
  all_goals exact evolves_ite (evolves_found fun _ _ => begins _) (begins _)

theorem evolves_setLocalMode (isBig : Bool) : (setLocalMode isBig).Evolves moves start := by
  have switches : (modify fun machine : Machine =>
      { machine with stack := machine.stack.setBig isBig } : Action Unit).Evolves moves start :=
    evolves_modify fun _ evolved => evolved.setBig isBig
  refine evolves_get fun machine evolved => evolves_ite (evolves_found fun _ _ => ?_) ?_
  all_goals
    exact evolves_ite ((evolves_keepPackage _).bind fun _ => switches) switches

theorem evolves_takePackage (level : Int) : (takePackage level).Evolves moves start := by
  refine evolves_get fun machine evolved => ?_
  split
  · exact evolves_lift
  · next purges =>
      exact evolves_set_then evolves_lift
        { evolved with hasMadeTable := fun made => .purge (evolved.hasMadeTable made) purges }

theorem evolves_finishFunction : finishFunction.Evolves moves start := by
  refine evolves_get fun machine evolved => (evolves_takePackage _).bind fun package => ?_
  split
  · exact evolves_modify fun _ evolved => evolved.setBig _
  · refine evolves_get fun _ _ => evolves_found fun values _ => ?_
    exact evolves_modify fun _ evolved => { evolved with isFitted := fun _ => Stack.isFitted_ofValues _ _ }

theorem evolves_discardFunction : discardFunction.Evolves moves start := by
  refine evolves_get fun machine evolved => (evolves_takePackage _).bind fun package => ?_
  split
  · exact evolves_modify fun _ evolved => evolved.setBig _
  · exact evolves_modify fun _ evolved => { evolved with isFitted := fun _ => Stack.isFitted_ofValues _ _ }

theorem evolves_abandonFunction : abandonFunction.Evolves moves start :=
  evolves_get fun _ _ => (evolves_takePackage _).bind fun _ =>
    evolves_modify fun _ evolved => evolved.setBig _

/-! ## The return stack -/

theorem evolves_pushReturn (caller : Caller) (address : Option Nat) :
    (pushReturn caller address).Evolves true start :=
  evolves_get fun _ evolved => evolves_found fun _ _ => evolves_set { evolved with course := Bool.noConfusion }

theorem evolves_popReturn : popReturn.Evolves true start := by
  refine evolves_get fun machine evolved => ?_
  split
  · exact evolves_pure
  · refine evolves_ite ((evolves_restoreEditor _).bind fun _ => ?_) ?_
    all_goals
      refine evolves_get fun _ _ => evolves_found fun popped _ => ?_
      refine evolves_modify_then evolves_pure fun left evolved => ?_
      have popped : start.Evolves true { left with returns := popped.2 } :=
        { evolved with course := Bool.noConfusion }
      exact { (popped.purgeLevel machine.level).checkEditor with }

theorem Evolves.dropCalls (evolved : start.Evolves true machine) (fuel : Nat) :
    start.Evolves true (Machine.dropCalls fuel machine) := by
  induction fuel generalizing machine with
  | zero => exact evolved
  | succ fuel ih =>
      rw [Machine.dropCalls]
      split
      · exact evolved
      · have left : start.Evolves true
            (if machine.callSavesStack then abandonFunction.attempt machine else machine) :=
          (evolves_abandonFunction evolved).ite evolved _
        refine ih (Evolves.purgeLevel ?_ _)
        exact { left with course := Bool.noConfusion }

theorem Evolves.clearReturns (evolved : start.Evolves true machine) : start.Evolves true machine.clearReturns :=
  ((evolved.dropCalls _).purgeLevel 0).checkEditor

theorem Evolves.clearReturnsUnlessRunning (evolved : start.Evolves true machine) :
    start.Evolves true (if machine.isRunning then machine else machine.clearReturns) :=
  evolved.ite evolved.clearReturns _

theorem evolves_unwindToSolver (fuel : Nat) : (unwindToSolver fuel).Evolves true start := by
  induction fuel with
  | zero => exact evolves_lift
  | succ fuel ih =>
      refine evolves_get fun machine evolved => evolves_ite (evolves_discardFunction.bind fun _ => ?_) ?_
      all_goals
        refine evolves_popReturn.bind fun frame => ?_
        split
        · exact evolves_lift
        · exact evolves_ite evolves_pure (ih.bind fun _ => evolves_pure)

/-! ## Searches -/

theorem evolves_callSample (caller : Caller) (function variableName : List UInt8) (value : Binary64) :
    (callSample caller function variableName value).Evolves true start := by
  refine evolves_get fun machine evolved => ?_
  split
  · exact evolves_lift
  · refine (evolves_storeName _ _).bind fun _ =>
      evolves_modify_then ?_ fun _ evolved => { evolved with course := Bool.noConfusion }
    exact (evolves_pushReturn caller none).bind fun _ => evolves_lift

theorem evolves_clearReturnsUnlessRunning : clearReturnsUnlessRunning.Evolves true start :=
  evolves_modify fun _ evolved => evolved.clearReturnsUnlessRunning

theorem evolves_sampleForSolver (point : UInt8) (stage : Solver.Stage) :
    (sampleForSolver point stage).Evolves true start := by
  refine evolves_get fun machine evolved => evolves_ite (evolves_found fun _ _ => ?_) ?_
  all_goals exact evolves_set_then (evolves_callSample _ _ _ _) { evolved with course := Bool.noConfusion }

theorem Evolves.putResults (evolved : start.Evolves true machine) (results : List Value) :
    start.Evolves true (machine.putResults results) := by
  rw [Machine.putResults]
  dsimp only
  refine { evolved with isFitted := fun _ => ?_ }
  split
  · next big => exact Stack.isFitted_of_big big
  · exact Stack.isFitted_ofValues false results

theorem evolves_finishSolving (verdict : Verdict) : (finishSolving verdict).Evolves true start := by
  refine evolves_get fun machine evolved => ?_
  dsimp only
  refine evolves_set_then ((evolves_storeName _ _).bind fun _ => ?_) { evolved with course := Bool.noConfusion }
  refine evolves_modify_then (evolves_ite ?_ evolves_pure) fun machine evolved =>
    { evolved.putResults _ with course := Bool.noConfusion }
  exact evolves_modify_then evolves_lift fun _ evolved => { evolved with course := Bool.noConfusion }

theorem evolves_takeSample (result : Option Binary64) : (takeSample result).Evolves true start := by
  refine evolves_get fun machine evolved => ?_
  dsimp only
  refine evolves_set_then (evolves_ite (evolves_finishSolving _) ?_) { evolved with course := Bool.noConfusion }
  refine evolves_modify_then ?_ fun _ evolved => { evolved with course := Bool.noConfusion }
  split
  · exact evolves_sampleForSolver _ _
  · exact evolves_finishSolving _
  · exact evolves_lift

theorem evolves_returnToSolver (failed stops : Bool) : (returnToSolver failed stops).Evolves true start := by
  refine evolves_ite (evolves_modify_then ?_ fun _ evolved => { evolved with course := Bool.noConfusion }) ?_
  all_goals
    refine evolves_get fun machine evolved => evolves_ite (evolves_found fun _ _ => ?_) ?_
    all_goals
      refine evolves_ite (evolves_takeSample none) (evolves_found fun x _ => ?_)
      split
      · exact evolves_takeSample _
      · exact evolves_takeSample none

theorem evolves_beginSolving (name : List UInt8) : (beginSolving name).Evolves true start := by
  have begins (machine : Machine) : (do
      let first := (← machine.realNamed name).getD 0
      let second ← (← machine.stack.x).asReal
      clearReturnsUnlessRunning
      modify fun machine =>
        { machine with
          alpha := name
          solver :=
            { machine.solver with
              variableName := name
              function := machine.solver.chosenFunction
              program := machine.program
              address := machine.address
              keepsRunning := machine.keepsRunning : Solver }.start first second }
      sampleForSolver Solver.lowerEnd .firstGuess : Action Unit).Evolves true start := by
    refine evolves_found fun first _ => evolves_found fun x _ => evolves_found fun second _ => ?_
    refine evolves_clearReturnsUnlessRunning.bind fun _ => ?_
    exact evolves_modify_then (evolves_sampleForSolver _ _) fun _ evolved =>
      { evolved with course := Bool.noConfusion }
  exact evolves_get fun machine _ => evolves_ite (evolves_found fun _ _ => begins machine) (begins machine)

theorem evolves_sampleForIntegrator : sampleForIntegrator.Evolves true start :=
  evolves_get fun _ _ =>
    evolves_ite (evolves_found fun _ _ => evolves_callSample _ _ _ _) (evolves_callSample _ _ _ _)

theorem evolves_finishIntegrating : finishIntegrating.Evolves true start := by
  refine evolves_get fun machine evolved =>
    evolves_modify_then ?_ fun _ evolved => { evolved with course := Bool.noConfusion }
  refine (evolves_pushLift _).bind fun _ => (evolves_push _).bind fun _ => ?_
  refine evolves_modify_then (evolves_ite ?_ evolves_pure) fun _ evolved =>
    { evolved with course := Bool.noConfusion }
  exact evolves_modify_then evolves_lift fun _ evolved => { evolved with course := Bool.noConfusion }

theorem evolves_returnToIntegrator : returnToIntegrator.Evolves true start := by
  refine evolves_get fun machine evolved => ?_
  dsimp only
  refine evolves_set_then ?_ { evolved with course := Bool.noConfusion }
  split
  · exact evolves_sampleForIntegrator
  · exact evolves_finishIntegrating
  · exact evolves_lift

theorem evolves_beginIntegrating (name : List UInt8) : (beginIntegrating name).Evolves true start := by
  have begins (machine : Machine) : (do
      let lower ← machine.limitNamed lowerLimitName
      let upper ← machine.limitNamed upperLimitName
      let accuracy := ((← machine.realNamed accuracyName).getD 0).maximum 0
      clearReturnsUnlessRunning
      modify fun machine =>
        { machine with
          alpha := name
          integrator :=
            { machine.integrator with
              variableName := name
              function := machine.integrator.chosenFunction
              program := machine.program
              address := machine.address
              keepsRunning := machine.keepsRunning : Integrator }.start lower upper accuracy }
      returnToIntegrator : Action Unit).Evolves true start := by
    refine evolves_found fun lower _ => evolves_found fun upper _ => evolves_found fun accuracy _ => ?_
    refine evolves_clearReturnsUnlessRunning.bind fun _ => ?_
    exact evolves_modify_then evolves_returnToIntegrator fun _ evolved => { evolved with course := Bool.noConfusion }
  exact evolves_get fun machine _ => evolves_ite (evolves_found fun _ _ => begins machine) (begins machine)

/-! ## Returns -/

theorem Evolves.skipLine (evolved : start.Evolves true machine) : start.Evolves true machine.skipLine := by
  rw [Machine.skipLine]
  split
  · split
    · exact { evolved with course := Bool.noConfusion }
    · exact evolved
  · exact evolved

theorem Evolves.leaveEnd (evolved : start.Evolves true machine) : start.Evolves true machine.leaveEnd := by
  rw [Machine.leaveEnd]
  split
  · split
    · exact { evolved with course := Bool.noConfusion }
    · exact evolved
  · exact evolved

theorem evolves_endProgram : endProgram.Evolves true start :=
  evolves_modify_then evolves_lift fun _ evolved => ((evolved.purgeLevel 0).checkEditor).leaveEnd

theorem evolves_resume (frame : Frame) (kind : ReturnKind) : (resume frame kind).Evolves true start := by
  rw [resume]
  split
  · exact evolves_returnToSolver false false
  · exact evolves_returnToIntegrator
  · next index _ =>
      refine evolves_modify_then (evolves_ite evolves_lift evolves_pure) fun machine evolved => ?_
      have resumed : start.Evolves true { machine with program := index, address := frame.address } :=
        { evolved with course := Bool.noConfusion }
      exact resumed.skipLine.ite resumed _

theorem evolves_returnFromCall (kind : ReturnKind) : (returnFromCall kind).Evolves true start := by
  refine evolves_get fun machine evolved =>
    evolves_ite (evolves_set { evolved.clearReturns with course := Bool.noConfusion }) ?_
  refine evolves_ite (evolves_finishFunction.bind fun _ => ?_) ?_
  all_goals
    refine evolves_popReturn.bind fun frame => ?_
    split
    · exact evolves_endProgram
    · exact evolves_resume _ kind

theorem evolves_unwind : unwind.Evolves true start := evolves_get fun _ _ => evolves_unwindToSolver _

theorem evolves_failSample : failSample.Evolves true start :=
  evolves_unwind.bind fun stops => evolves_returnToSolver true stops

theorem evolves_returnWithError (error : Error) : (returnWithError error).Evolves true start := by
  refine evolves_get fun machine evolved => evolves_ite evolves_failSample ?_
  refine evolves_ite (evolves_discardFunction.bind fun _ => ?_) ?_
  all_goals
    refine evolves_popReturn.bind fun frame => ?_
    split
    · exact evolves_modify_then evolves_throw fun _ evolved => { evolved with course := Bool.noConfusion }
    · exact evolves_throw

end Machine

end Keystroke
