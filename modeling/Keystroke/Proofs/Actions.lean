import Mathlib
import Keystroke.Machine.Editing

/-!
# What actions do to a machine

An action on a machine has an outcome and leaves a machine. A sequence of actions ends with the first
that fails, on the machine that this one has left. Actions that may remove the variable that is edited check
the editor afterwards.
-/

namespace Keystroke

namespace Action

variable {α β : Type} (machine : Machine)

@[simp]
theorem on_pure (result : α) : Action.on (pure result) machine = (.ok result, machine) :=
  rfl

@[simp]
theorem on_get : Action.on get machine = (.ok machine, machine) :=
  rfl

@[simp]
theorem on_set (after : Machine) : Action.on (set after) machine = (.ok (), after) :=
  rfl

@[simp]
theorem on_modify (change : Machine → Machine) :
    Action.on (modify change) machine = (.ok (), change machine) :=
  rfl

/-- An outcome that was found without the machine leaves it as it is. -/
@[simp]
theorem on_lift (outcome : Outcome α) : Action.on (liftM outcome) machine = (outcome, machine) := by
  cases outcome <;> rfl

@[simp]
theorem on_throw (error : Error) :
    Action.on (throw error : Action α) machine = (.error error, machine) :=
  rfl

@[simp]
theorem on_ite (condition : Prop) [Decidable condition] (first second : Action α) :
    (if condition then first else second).on machine =
      if condition then first.on machine else second.on machine := by
  split <;> rfl

theorem on_bind (action : Action α) (next : α → Action β) :
    (action >>= next).on machine =
      match action.on machine with
      | (.ok result, after) => (next result).on after
      | (.error error, after) => (.error error, after) := by
  simp only [on, bind, ExceptT.bind, ExceptT.run, ExceptT.mk, StateT.bind, StateT.run]
  rcases action machine with ⟨_ | _, after⟩ <;> rfl

variable {machine}

theorem on_bind_ok {action : Action α} {result : α} {after : Machine}
    (first : action.on machine = (.ok result, after)) (next : α → Action β) :
    (action >>= next).on machine = (next result).on after := by
  rw [on_bind, first]

theorem on_bind_error {action : Action α} {error : Error} {after : Machine}
    (first : action.on machine = (.error error, after)) (next : α → Action β) :
    (action >>= next).on machine = (.error error, after) := by
  rw [on_bind, first]

end Action

/-- The check ends the editor or leaves it, and changes nothing else. An editor that is left had its variable. -/
theorem Machine.exists_checkEditor (machine : Machine) :
    ∃ editor, machine.checkEditor = { machine with editor } ∧
      ∀ found ∈ editor, found ∈ machine.editor ∧ machine.editorHasTarget found = true := by
  rw [checkEditor]
  split
  · next idle => exact ⟨none, by rw [← idle], by simp⟩
  · next editor active =>
      split
      · next has =>
          refine ⟨some editor, by rw [← active], fun found isFound => ?_⟩
          obtain rfl := Option.some.inj isFound
          exact ⟨active, has⟩
      · exact ⟨none, rfl, by simp⟩

end Keystroke
