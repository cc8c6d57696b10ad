import Mathlib
import Keystroke.Machine.Programming
import Keystroke.Proofs.Calls.Laws
import Keystroke.Proofs.Calls.SearchSteps

/-!
# Laws that are maintained

A law is maintained if it is upheld where a call is entered or left, where a call keeps something, where a
search changes, and where an error is reported. Whatever else enters calls, searches or stops is made of
these.
-/

namespace Keystroke

open Outcome Keystroke.Action

section

variable (law : Calls → Nat → Prop) [Calls.Law law]

/-- A caller goes on when its call returns: a search has no other call, and is where it was when it asked
for a sample, unless the law has nothing against a search that is not. -/
def Calls.Awaits (returns : Returns) (solver : Solver) (integrator : Integrator) : Caller → Prop
  | .program _ => True
  | .solver => Calls.Law.vacant law .solver returns ∧
      (Solver.IsStage solver.stage ∨
        Calls.Law.permitted law ⟨.internalError, Error.solverIdle⟩)
  | .integrator => Calls.Law.vacant law .integrator returns ∧
      (integrator.stage = Integrator.betweenSamples ∨
        Calls.Law.permitted law ⟨.internalError, Error.integratorIdle⟩)

/-- A machine that a caller may go on with. -/
abbrev Machine.Awaits (machine : Machine) (caller : Caller) : Prop :=
  Calls.Awaits law machine.returns machine.solver machine.integrator caller

end

/-- A law that is upheld wherever calls, searches or errors change. -/
class Calls.Maintained (law : Calls → Nat → Prop) [Calls.Law law] : Prop where
  new : ∀ {memory}, memory ≤ Grid.sizeLimit → ∀ generator, (Machine.new memory generator).Obeys law
  solver : ∀ {calls bound}, law calls bound → calls.solver.variableName ∉ Calls.Law.names law
  integrator : ∀ {calls bound}, law calls bound →
    calls.integrator.variableName ∉ Calls.Law.names law
  addError : ∀ {calls bound error}, law calls bound → Calls.Law.permitted law error →
    law { calls with errors := calls.errors ++ [error] } bound
  forgetErrors : ∀ {calls bound}, law calls bound → law { calls with errors := [] } bound
  /-- While a search waits for a sample, its stage stays. -/
  setSolver : ∀ {calls bound solver}, law calls bound →
    Calls.Law.vacant law .solver calls.returns ∨ Solver.stage solver = calls.solver.stage →
      solver.variableName ∉ Calls.Law.names law → law { calls with solver } bound
  setIntegrator : ∀ {calls bound integrator}, law calls bound →
    Calls.Law.vacant law .integrator calls.returns ∨
        Integrator.stage integrator = calls.integrator.stage →
      integrator.variableName ∉ Calls.Law.names law → law { calls with integrator } bound
  push : ∀ {calls bound} {frame : Frame}, law calls bound →
    frame.savesStack = false → frame.parksEditor = false →
      Calls.Awaits law calls.returns calls.solver calls.integrator frame.caller →
        calls.returns.depth < maximalReturns →
          law { calls with returns := { calls.returns with items := frame :: calls.returns.items } }
            bound
  stopOnReturn : ∀ {calls bound}, law calls bound →
    law { calls with
      returns := calls.returns.modifyTop fun frame => { frame with stops := true } } bound
  keepPackage : ∀ {machine : Machine}, machine.Obeys law → machine.returns.isEmpty = false →
    ∀ package : CallPackage, (∀ calls floor, machine.IsSettled calls floor →
        package.Fits (calls.free machine.nextStorage)) → package.HasInputs →
      (Machine.keepPackage package).Upholds law machine
  parkEditor : ∀ {machine : Machine}, machine.Obeys law → Machine.parkEditor.Upholds law machine
  /-- What comes after a call was left may rely on it that the caller goes on. -/
  leave : ∀ {machine : Machine} {α : Type} {property : α → Machine → Prop} {finish : Action Unit}
    {next : Option Frame → Action α}, machine.Obeys law →
      Machine.TakesPackage finish →
        (∀ left : Machine, left.Obeys law → left.returns.items = machine.returns.items.tail →
          (∀ frame ∈ machine.returns.top?, left.Awaits law frame.caller) →
            (next machine.returns.top?).Gives law left property) →
          (if machine.callSavesStack then finish >>= fun _ => Machine.popReturn >>= next
            else Machine.popReturn >>= next).Gives law machine property
  clearReturns : ∀ {machine : Machine}, machine.Obeys law → machine.clearReturns.Obeys law

variable {law : Calls → Nat → Prop} [Calls.Law law] [Calls.Maintained law]

namespace Machine

variable {machine : Machine}

namespace Obeys

theorem addError (obeys : machine.Obeys law) {error : Error}
    (permitted : Calls.Law.permitted law error) : (machine.addError error).Obeys law := by
  obtain ⟨calls, lawful, settled⟩ := obeys
  exact ⟨{ calls with errors := calls.errors ++ [error] }, Calls.Maintained.addError lawful permitted,
    { settled with errors := congrArg (· ++ [error]) settled.errors }⟩

theorem forgetErrors (obeys : machine.Obeys law) :
    ({ machine with errors := [] } : Machine).Obeys law := by
  obtain ⟨calls, lawful, settled⟩ := obeys
  exact ⟨{ calls with errors := [] }, Calls.Maintained.forgetErrors lawful,
    { settled with errors := rfl }⟩

theorem clearReturns (obeys : machine.Obeys law) : machine.clearReturns.Obeys law :=
  Calls.Maintained.clearReturns obeys

/-! ## Searches -/

theorem solver (obeys : machine.Obeys law) :
    machine.solver.variableName ∉ Calls.Law.names law := by
  obtain ⟨calls, lawful, settled⟩ := obeys
  exact settled.solver ▸ Calls.Maintained.solver lawful

theorem integrator (obeys : machine.Obeys law) :
    machine.integrator.variableName ∉ Calls.Law.names law := by
  obtain ⟨calls, lawful, settled⟩ := obeys
  exact settled.integrator ▸ Calls.Maintained.integrator lawful

theorem setSolver (obeys : machine.Obeys law) {solver : Solver}
    (idle : Calls.Law.vacant law .solver machine.returns ∨ solver.stage = machine.solver.stage)
    (unreserved : solver.variableName ∉ Calls.Law.names law) :
    ({ machine with solver } : Machine).Obeys law := by
  obtain ⟨calls, lawful, settled⟩ := obeys
  rw [settled.returns, settled.solver] at idle
  exact ⟨{ calls with solver }, Calls.Maintained.setSolver lawful idle unreserved,
    { settled with solver := rfl }⟩

theorem setIntegrator (obeys : machine.Obeys law) {integrator : Integrator}
    (idle : Calls.Law.vacant law .integrator machine.returns ∨
      integrator.stage = machine.integrator.stage)
    (unreserved : integrator.variableName ∉ Calls.Law.names law) :
    ({ machine with integrator } : Machine).Obeys law := by
  obtain ⟨calls, lawful, settled⟩ := obeys
  rw [settled.returns, settled.integrator] at idle
  exact ⟨{ calls with integrator }, Calls.Maintained.setIntegrator lawful idle unreserved,
    { settled with integrator := rfl }⟩

/-- A function that is chosen is for the next search. -/
theorem chooseToSolve (obeys : machine.Obeys law) (name : List UInt8) :
    ({ machine with solver := { machine.solver with chosenFunction := name } } : Machine).Obeys
      law := by
  refine obeys.setSolver ?_ obeys.solver
  exact .inr rfl

theorem chooseToIntegrate (obeys : machine.Obeys law) (name : List UInt8) :
    ({ machine with integrator := { machine.integrator with chosenFunction := name } } :
      Machine).Obeys law := by
  refine obeys.setIntegrator ?_ obeys.integrator
  exact .inr rfl

/-! ## Calls -/

theorem stopOnReturn (obeys : machine.Obeys law) :
    ({ machine with
      returns := machine.returns.modifyTop fun frame => { frame with stops := true } } :
      Machine).Obeys law := by
  obtain ⟨calls, lawful, settled⟩ := obeys
  have marked := settled.markTop fun frame => { frame with stops := true }
  rw [settled.returns] at marked ⊢
  exact ⟨_, Calls.Maintained.stopOnReturn lawful, marked⟩

end Obeys

theorem leads_pushReturn (obeys : machine.Obeys law) {caller : Caller}
    (awaits : machine.Awaits law caller) (address : Option Nat) :
    (pushReturn caller address).Upholds law machine := by
  obtain ⟨calls, lawful, settled⟩ := id obeys
  have stored := Calls.Law.stored lawful
  refine leads_get (leads_lift obeys (ends_ite (fun _ => ?_) fun room => ?_)
    fun returns pushed => ⟨pushed, trivial⟩)
  · rw [settled.returns, stored.overflow]
    exact ends_fail rfl
  · have room : calls.returns.depth < maximalReturns := by
      rw [settled.returns] at room
      simpa [BoundedStack.isFull, stored.limit] using room
    have pushed := settled.push
      { caller, address, liftDisabled := machine.flags.get Flags.liftDisabled }
    rw [Machine.Awaits, settled.returns, settled.solver, settled.integrator] at awaits
    rw [settled.returns] at pushed ⊢
    exact ⟨_, Calls.Maintained.push lawful rfl rfl awaits room, pushed⟩

theorem leads_beginFunction (obeys : machine.Obeys law) {inputs : Nat} (small : inputs < 2 ^ 53)
    (outputs : Nat) : (beginFunction inputs outputs).Upholds law machine := by
  refine leads_get (leads_ite (fun _ => leads_fail obeys rfl) fun allowed => ?_)
  refine leads_ite (fun _ => leads_fail obeys rfl) fun enough => ?_
  rw [Bool.or_eq_true, not_or] at allowed
  refine (Calls.Maintained.keepPackage obeys (by simpa using allowed.1) _ ?_ ?_).bind
    fun _ after obeysAfter _ => ?_
  · rintro calls floor settled saved ⟨rfl⟩
    exact ⟨settled.stack, settled.lastX⟩
  · rintro saved ⟨rfl⟩
    exact ⟨not_lt.mp enough, small⟩
  · refine ⟨obeysAfter.change (fun calls settled => ?_) le_rfl, trivial⟩
    exact { settled with
      stack := Stack.Within.ofValues
        (fun value member => settled.stack value (List.mem_of_mem_take member)) _ }

theorem leads_setLocalMode (obeys : machine.Obeys law) (isBig : Bool) :
    (setLocalMode isBig).Upholds law machine := by
  have setsMode : ∀ after : Machine, after.Obeys law →
      (modify fun machine => { machine with stack := machine.stack.setBig isBig } :
        Action Unit).Upholds law after := fun after obeys =>
    ⟨obeys.change (fun calls settled => { settled with stack := settled.stack.setBig isBig }) le_rfl,
      trivial⟩
  refine leads_get (leads_ite (fun _ => leads_fail obeys rfl) fun inCall => ?_)
  refine leads_ite (fun _ => ?_) fun _ => setsMode machine obeys
  refine (Calls.Maintained.keepPackage obeys (by simpa using inCall) _ ?_ ?_).bind
    fun _ after obeysAfter _ => setsMode after obeysAfter
  · simp [CallPackage.Fits]
  · simp [CallPackage.HasInputs]

theorem leads_storeLocal (obeys : machine.Obeys law) {name : List UInt8}
    (unreserved : name ∉ Calls.Law.names law) {value : Value}
    (fits : ∀ calls floor, machine.IsSettled calls floor →
      value.Fits (calls.free machine.nextStorage)) :
    (storeLocal name value).Upholds law machine := by
  have stored : Ends (fun result => ({ machine with bindings := result.2 } : Machine).Obeys law)
      (machine.bindings.storeLocal name value machine.level 0) := by
    obtain ⟨calls, lawful, settled⟩ := obeys
    refine (settled.bindings.storeLocal (IsSettled.globalLevel_le machine)
      (Calls.Law.same_names lawful ▸ unreserved) (fits calls 0 settled) 0).imp
      fun result settledAfter => ?_
    exact ⟨calls, lawful, { settled with bindings := settledAfter }⟩
  refine leads_get (leads_lift obeys stored fun result obeysAfter => ?_)
  exact leads_set <| leads_ite (fun _ => Calls.Maintained.parkEditor obeysAfter) fun _ =>
    ⟨obeysAfter, trivial⟩

/-! ## Forgotten calls -/

theorem items_dropCalls (fuel : Nat) (machine : Machine) :
    (dropCalls fuel machine).returns.items = machine.returns.items.drop fuel := by
  induction fuel generalizing machine with
  | zero => rfl
  | succ fuel ih =>
      rw [dropCalls]
      split
      · next empty => simp [empty]
      · next frame rest items =>
          dsimp only
          split <;> rw [ih, items] <;> rfl

theorem items_clearReturns (machine : Machine) : machine.clearReturns.returns.items = [] := by
  have dropped := items_dropCalls machine.returns.depth machine
  rw [clearReturns, (inSameCalls_checkEditor _).returns]
  exact dropped.trans (List.drop_length ..)

end Machine

end Keystroke
