import Mathlib
import Keystroke.Proofs.Bindings.Made
import Keystroke.Proofs.Returning

/-!
# Stack lift after commands

A command that does not leave stack lift as it was enables it, or disables it if it is `ENTER` or `CLX`.
This is done at the end of its line. `GETKEY` and the two searches may complete later. The integrator then
enables stack lift itself; a key that was waited for and a root are delivered with stack lift as it is,
which for a root is as it was when the solver was started.
-/

namespace Keystroke

open Std.Do Keystroke.Action

set_option mvcgen.warning false

namespace Flags

variable (flags : Flags)

theorem get_set (number other : Nat) (value : Bool) :
    (flags.set number value).get other =
      if other = number ∧ number < count then value else flags.get other := by
  simp only [get, set, Array.getD_eq_getD_getElem?, Vector.toArray_setIfInBounds,
    Array.getElem?_setIfInBounds, Vector.size_toArray, count]
  split_ifs <;> simp_all

@[simp]
theorem get_liftDisabled_set (value : Bool) :
    (flags.set liftDisabled value).get liftDisabled = value := by
  rw [get_set, if_pos ⟨rfl, by decide⟩]

end Flags

namespace Machine

/-! ## Commands that complete later -/

/-- How a command completes that does not leave stack lift as it was. -/
inductive Completion where
  /-- At the end of its line. -/
  | atOnce (instruction : Instruction) (target : JumpTarget)
    (sets : instruction.opcode.keepsLift = false)
  /-- The key comes that `GETKEY` has waited for. -/
  | withKey
  /-- The solver delivers what it has found. -/
  | withRoot (verdict : Verdict)
  /-- The integrator delivers the integral. -/
  | withIntegral

namespace Completion

/-- What is done when a command completes. -/
def action : Completion → Action Unit
  | atOnce instruction target _ => perform instruction target
  | withKey => continueTask .awaitingKey
  | withRoot verdict => finishSolving verdict
  | withIntegral => finishIntegrating

/-- How a command ends that has completed: a search from the keyboard stops the machine. -/
def EndsIn (outcome : Outcome Unit) : Completion → Prop
  | atOnce .. | withKey => outcome = .ok ()
  | withRoot _ | withIntegral => outcome = .ok () ∨ outcome = .error (.plain .stop)

/-- Whether stack lift is disabled when a command has completed, given whether it was before. -/
def disables (before : Bool) : Completion → Bool
  | atOnce instruction _ _ => instruction.opcode.disablesLift
  | withKey | withRoot _ => before
  | withIntegral => false

end Completion

variable {machine after : Machine} {outcome : Outcome Unit}

theorem liftDisabled_afterCommand {opcode : Opcode} (sets : opcode.keepsLift = false) (left : Machine) :
    (left.afterCommand opcode).flags.get Flags.liftDisabled = opcode.disablesLift := by
  rw [afterCommand, sets, if_neg Bool.false_ne_true]
  exact Flags.get_liftDisabled_set _ _

theorem liftDisabled_perform {instruction : Instruction} {target : JumpTarget}
    (sets : instruction.opcode.keepsLift = false)
    (performs : (perform instruction target).on machine = (.ok (), after)) :
    after.flags.get Flags.liftDisabled = instruction.opcode.disablesLift := by
  rw [perform, on_bind_ok (on_get _), on_bind] at performs
  rcases ends : (effect machine.memory machine.flags instruction target).on machine with ⟨error | _, left⟩
  · rw [ends] at performs
    cases performs
  · rw [ends] at performs
    cases performs
    exact liftDisabled_afterCommand sets left

theorem flags_getKey (ends : getKey.on machine = (outcome, after)) : after.flags = machine.flags := by
  rw [getKey, on_bind_ok (on_get _)] at ends
  split at ends
  · rw [on_bind_ok (on_set _ _)] at ends
    cases ends
    rfl
  · rw [on_bind_ok (on_set _ _)] at ends
    cases ends
    rfl

theorem liftDisabled_finishIntegrating (ends : finishIntegrating.on machine = (outcome, after)) :
    after.flags.get Flags.liftDisabled = false := by
  simp only [finishIntegrating, on_bind, on_get, on_modify, pushLift, push, on_ite] at ends
  split at ends
  · cases ends
    exact Flags.get_liftDisabled_set _ _
  · cases ends
    exact Flags.get_liftDisabled_set _ _

/-! ## Searches -/

/-- The flags are as given, and further frames note whether stack lift is disabled in them. -/
def MarksSamples (flags : Flags) (frames : List Frame) (machine : Machine) : Prop :=
  machine.flags = flags ∧ ∀ frame ∈ machine.returns.items,
    frame ∈ frames ∨ frame.liftDisabled = flags.get Flags.liftDisabled

/-- An action leaves the flags as they are and marks the samples it begins, also when it fails. -/
abbrev KeepsMarks {α : Type} (flags : Flags) (frames : List Frame) (action : Action α) : Prop :=
  ⦃fun machine => ⌜machine.MarksSamples flags frames⌝⦄ action
  ⦃post⟨fun _ machine => ⌜machine.MarksSamples flags frames⌝,
    fun _ machine => ⌜machine.MarksSamples flags frames⌝⟩⦄

section

variable {flags : Flags} {frames : List Frame}

theorem MarksSamples.push (marks : machine.MarksSamples flags frames) (frame : Frame)
    (marked : frame.liftDisabled = flags.get Flags.liftDisabled) {returns : Returns}
    (pushes : machine.returns.push frame = .ok returns) :
    ({ machine with returns } : Machine).MarksSamples flags frames := by
  rw [BoundedStack.push] at pushes
  split at pushes
  · cases pushes
  · cases pushes
    refine ⟨marks.1, fun other member => ?_⟩
    rcases List.mem_cons.mp member with rfl | member
    · exact .inr marked
    · exact marks.2 other member

theorem keepsMarks_iff {α : Type} {action : Action α} : KeepsMarks flags frames action ↔
    ∀ machine : Machine, machine.MarksSamples flags frames →
      (action.on machine).2.MarksSamples flags frames := by
  refine forall_congr' fun machine => imp_congr_right fun marks => ?_
  rw [Action.on]
  rcases ends : action.run.run machine with ⟨error | result, left⟩
  · simp [wp, ends, Id.run]
  · simp [wp, ends, Id.run]

theorem keepsMarks_lift {α : Type} (outcome : Outcome α) :
    KeepsMarks flags frames (MonadLift.monadLift outcome : Action α) := by
  intro machine marks
  cases outcome <;> exact marks

theorem keepsMarks_pushReturn (caller : Caller) (address : Option Nat) :
    KeepsMarks flags frames (pushReturn caller address) := by
  refine keepsMarks_iff.mpr fun machine marks => ?_
  rw [pushReturn, on_bind_ok (on_get _), on_bind, on_lift]
  cases pushes : machine.returns.push
      { caller, address, liftDisabled := machine.flags.get Flags.liftDisabled } with
  | error _ => exact marks
  | ok returns => exact marks.push _ (marks.1 ▸ rfl) pushes

theorem keepsMarks_storeName (name : List UInt8) (value : Value) :
    KeepsMarks flags frames (storeName name value) := by
  mvcgen [storeName, keepsMarks_lift]

theorem keepsMarks_finishSolving (verdict : Verdict) :
    KeepsMarks flags frames (finishSolving verdict) := by
  mvcgen [finishSolving, keepsMarks_lift, keepsMarks_storeName]

theorem keepsMarks_returnToSolver (failed stops : Bool) :
    KeepsMarks flags frames (returnToSolver failed stops) := by
  mvcgen [returnToSolver, takeSample, sampleForSolver, callSample, keepsMarks_lift,
    keepsMarks_storeName, keepsMarks_pushReturn, keepsMarks_finishSolving]

theorem keepsMarks_abandonFunction : KeepsMarks flags frames abandonFunction := by
  mvcgen [abandonFunction, takePackage, keepsMarks_lift]

theorem MarksSamples.dropCalls (marks : machine.MarksSamples flags frames) (fuel : Nat) :
    (machine.dropCalls fuel).MarksSamples flags frames := by
  induction fuel generalizing machine with
  | zero => exact marks
  | succ fuel ih =>
      rw [Machine.dropCalls]
      split
      · exact marks
      · next rest items =>
          have left : (if machine.callSavesStack then abandonFunction.attempt machine
              else machine).MarksSamples flags frames := by
            split
            · exact keepsMarks_iff.mp keepsMarks_abandonFunction machine marks
            · exact marks
          refine ih ⟨left.1, fun frame member => marks.2 frame ?_⟩
          exact items ▸ List.mem_cons_of_mem _ member

theorem MarksSamples.clearReturns (marks : machine.MarksSamples flags frames) :
    machine.clearReturns.MarksSamples flags frames := by
  have dropped := marks.dropCalls machine.returns.depth
  obtain ⟨editor, same, -⟩ := ((machine.dropCalls machine.returns.depth).purgeLevel 0).exists_checkEditor
  rw [Machine.clearReturns, same]
  exact dropped

theorem keepsMarks_clearReturnsUnlessRunning : KeepsMarks flags frames clearReturnsUnlessRunning := by
  refine keepsMarks_iff.mpr fun machine marks => ?_
  rw [clearReturnsUnlessRunning, on_modify]
  dsimp only
  split
  · exact marks
  · exact marks.clearReturns

theorem keepsMarks_beginSolving (name : List UInt8) : KeepsMarks flags frames (beginSolving name) := by
  mvcgen [beginSolving, sampleForSolver, callSample, keepsMarks_lift, keepsMarks_storeName,
    keepsMarks_pushReturn, keepsMarks_clearReturnsUnlessRunning]

theorem KeepsMarks.of_on {α : Type} {action : Action α} {result : Outcome α}
    (keeps : ∀ flags frames, KeepsMarks flags frames action)
    (ends : action.on machine = (result, after)) :
    after.flags = machine.flags ∧ ∀ frame ∈ after.returns.items, frame ∈ machine.returns.items ∨
      frame.liftDisabled = machine.flags.get Flags.liftDisabled := by
  have kept := keepsMarks_iff.mp (keeps machine.flags machine.returns.items) machine
    ⟨rfl, fun frame member => .inl member⟩
  rwa [ends] at kept

end

theorem liftDisabled_popReturn {frame : Frame}
    (pops : popReturn.on machine = (.ok (some frame), after)) :
    after.flags.get Flags.liftDisabled = frame.liftDisabled := by
  cases items : machine.returns.items with
  | nil =>
      rw [on_popReturn_nil items] at pops
      cases pops
  | cons top rest =>
      rw [on_popReturn_cons items] at pops
      split at pops
      · cases pops
        exact Flags.get_liftDisabled_set _ _
      · cases pops

/-! ## The law -/

/-- What becomes of stack lift in a machine when a command completes. -/
structure HasLiftLaw (machine : Machine) : Prop where
  completed : ∀ (completion : Completion) (outcome : Outcome Unit) (after : Machine),
    completion.action.on machine = (outcome, after) → completion.EndsIn outcome →
      after.flags.get Flags.liftDisabled =
        completion.disables (machine.flags.get Flags.liftDisabled)
  /-- `GETKEY` leaves the same machine for a key that was there and for one that comes later, but for stack
  lift, which is enabled only in the first case. -/
  key : ∀ target key keys, machine.keys.pop? = some (key, keys) →
    ∃ left : Machine, left.flags = machine.flags ∧
      (continueTask .awaitingKey).on machine = (.ok (), left) ∧
      (perform (.plain .getKey) target).on machine =
        (.ok (), left.setFlag Flags.liftDisabled false)
  /-- The solver is started with stack lift as it is, and its first sample notes that. -/
  begun : ∀ name outcome after, (beginSolving name).on machine = (outcome, after) →
    after.flags = machine.flags ∧ ∀ sample ∈ after.returns.items,
      sample ∈ machine.returns.items ∨
        sample.liftDisabled = machine.flags.get Flags.liftDisabled
  /-- A sample that returns to the solver puts stack lift back, and hands it on to the next one or to what
  the solver delivers. -/
  sample : ∀ frame left kind outcome after, popReturn.on machine = (.ok (some frame), left) →
    frame.caller = .solver → (resume frame kind).on left = (outcome, after) →
      after.flags.get Flags.liftDisabled = frame.liftDisabled ∧
      ∀ next ∈ after.returns.items, next ∈ left.returns.items ∨
        next.liftDisabled = frame.liftDisabled

/-- Stack lift obeys its law in every machine. -/
theorem hasLiftLaw (machine : Machine) : machine.HasLiftLaw where
  completed completion outcome after completes finished := by
    cases completion with
    | atOnce instruction target sets =>
        obtain rfl : outcome = .ok () := finished
        exact liftDisabled_perform sets completes
    | withKey => rw [flags_getKey completes, Completion.disables]
    | withRoot verdict =>
        rw [(KeepsMarks.of_on (fun _ _ => keepsMarks_finishSolving verdict) completes).1,
          Completion.disables]
    | withIntegral => exact liftDisabled_finishIntegrating completes
  key target key keys popped := by
    let left := ({ machine with keys } : Machine).pushLifting (.real (.ofNat key.number.toNat))
    have recalls : getKey.on machine = (.ok (), left) := by
      simp [getKey, on_bind, popped, pushLift, left]
    refine ⟨left, rfl, recalls, ?_⟩
    have performs : (effect machine.memory machine.flags (.plain .getKey) target).on machine = _ := recalls
    rw [perform, on_bind_ok (on_get _), on_bind_ok performs]
    rfl
  begun name outcome after begins := KeepsMarks.of_on (fun _ _ => keepsMarks_beginSolving name) begins
  sample frame left kind outcome after pops isSolver resumes := by
    have returns : (returnToSolver false false).on left = (outcome, after) := by
      rwa [resume, isSolver] at resumes
    obtain ⟨same, marked⟩ := KeepsMarks.of_on (fun _ _ => keepsMarks_returnToSolver _ _) returns
    rw [← liftDisabled_popReturn pops, same]
    exact ⟨rfl, marked⟩

end Machine

end Keystroke
