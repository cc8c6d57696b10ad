import Mathlib
import Keystroke.Proofs.Bindings.Made
import Keystroke.Proofs.Courses.Course
import Keystroke.Proofs.FourLevels.Keeping

/-!
# What commands leave of a machine

A command makes no request to stop, changes the table of variables only by the operations of tables, and leaves
a fitted stack fitted. Unless it is one that moves the course, it leaves the machine on its course. This is one
relation between the machine before a command and the one that it leaves, however it ends, so that an invariant
of sessions need not go through all commands again.
-/

namespace Keystroke

namespace Machine

/-- No request to stop is pending. -/
def IsCalm (machine : Machine) : Prop := machine.isInterrupted = false

/-- What is still true after commands. Only where they may move the course, it may be another one. -/
structure Evolves (moves : Bool) (before after : Machine) : Prop where
  isCalm : before.IsCalm → after.IsCalm
  hasMadeTable : before.HasMadeTable → after.HasMadeTable
  isFitted : before.stack.IsFitted → after.stack.IsFitted
  course : moves = false → after.course = before.course

namespace Evolves

variable {moves : Bool} {before between after start machine other : Machine}

theorem refl (moves : Bool) (machine : Machine) : machine.Evolves moves machine := ⟨id, id, id, fun _ => rfl⟩

theorem trans (first : before.Evolves moves between) (second : between.Evolves moves after) :
    before.Evolves moves after where
  isCalm calm := second.isCalm (first.isCalm calm)
  hasMadeTable made := second.hasMadeTable (first.hasMadeTable made)
  isFitted fitted := second.isFitted (first.isFitted fitted)
  course stays := (second.course stays).trans (first.course stays)

/-- What stays on its course is among what may move it. -/
theorem moved (evolved : before.Evolves moves after) : before.Evolves true after :=
  { evolved with course := Bool.noConfusion }

theorem ite (evolved : start.Evolves moves machine) (otherEvolved : start.Evolves moves other)
    (condition : Prop) [Decidable condition] : start.Evolves moves (if condition then machine else other) := by
  split
  · exact evolved
  · exact otherEvolved

end Evolves

end Machine

namespace Action

variable {α β : Type} {moves : Bool} {start machine after : Machine}

/-- A machine that commands have made of `start` is still one after the action, however that ends. -/
def Evolves (moves : Bool) (start : Machine) (action : Action α) : Prop :=
  ∀ ⦃machine : Machine⦄, start.Evolves moves machine → start.Evolves moves (action.on machine).2

theorem evolves_pure {result : α} : (pure result : Action α).Evolves moves start := fun _ evolved => evolved

theorem evolves_lift {outcome : Outcome α} : (liftM outcome : Action α).Evolves moves start :=
  fun _ evolved => by rwa [on_lift]

theorem evolves_throw {error : Error} : (throw error : Action α).Evolves moves start := fun _ evolved => evolved

theorem evolves_set (evolved : start.Evolves moves after) : (set after : Action Unit).Evolves moves start :=
  fun _ _ => evolved

theorem evolves_modify {change : Machine → Machine}
    (changed : ∀ machine, start.Evolves moves machine → start.Evolves moves (change machine)) :
    (modify change : Action Unit).Evolves moves start := fun machine evolved => changed machine evolved

theorem Evolves.of_on {action : Action α} (acts : action.Evolves moves start) {outcome : Outcome α}
    (ran : action.on machine = (outcome, after)) (evolved : start.Evolves moves machine) :
    start.Evolves moves after := by
  have left := acts evolved
  rwa [ran] at left

theorem Evolves.bind {action : Action α} {next : α → Action β} (acts : action.Evolves moves start)
    (goesOn : ∀ result, (next result).Evolves moves start) : (action >>= next).Evolves moves start := by
  intro machine evolved
  rw [on_bind]
  rcases ran : action.on machine with ⟨error | result, after⟩
  · exact acts.of_on ran evolved
  · exact goesOn result (acts.of_on ran evolved)

/-- What is read from the machine is as far as the commands have come by then. -/
theorem evolves_get {next : Machine → Action β}
    (goesOn : ∀ machine, start.Evolves moves machine → (next machine).Evolves moves start) :
    (get >>= next).Evolves moves start := fun machine evolved => goesOn machine evolved evolved

/-- Going on with what was found without the machine. -/
theorem evolves_found {outcome : Outcome α} {next : α → Action β}
    (goesOn : ∀ result, outcome = .ok result → (next result).Evolves moves start) :
    ((liftM outcome : Action α) >>= next).Evolves moves start := by
  intro machine evolved
  rw [on_bind, on_lift]
  cases found : outcome with
  | error error => exact evolved
  | ok result => exact goesOn result found evolved

theorem evolves_set_then {next : Unit → Action β} (goesOn : (next ()).Evolves moves start)
    (evolved : start.Evolves moves after) : (set after >>= next).Evolves moves start :=
  fun _ _ => goesOn evolved

theorem evolves_modify_then {change : Machine → Machine} {next : Unit → Action β}
    (goesOn : (next ()).Evolves moves start)
    (changed : ∀ machine, start.Evolves moves machine → start.Evolves moves (change machine)) :
    (modify change >>= next).Evolves moves start := fun machine evolved => goesOn (changed machine evolved)

theorem evolves_ite {condition : Prop} [Decidable condition] {first second : Action α}
    (yes : first.Evolves moves start) (no : second.Evolves moves start) :
    (if condition then first else second).Evolves moves start := by
  split
  · exact yes
  · exact no

/-- An action that moves no course leaves the machine on its own. -/
theorem course_on {action : Action α} (acts : ∀ start, action.Evolves false start) (machine : Machine) :
    (action.on machine).2.course = machine.course :=
  (acts machine (.refl false machine)).course rfl

theorem course_of_on {action : Action α} (acts : ∀ start, action.Evolves false start) {outcome : Outcome α}
    (ran : action.on machine = (outcome, after)) : after.course = machine.course :=
  ((acts machine).of_on ran (.refl false machine)).course rfl

end Action

end Keystroke
