import Mathlib
import Keystroke.Error

/-!
# How outcomes end

An outcome ends well if a result has a property and an error is of a permitted class. Ordinary errors do
not say that the machine has lost something of its own: what a call keeps, or where a search stands. The
law composes along a sequence.
-/

namespace Keystroke

namespace Error

/-- The detail of the error for a call whose package is not among its locals. -/
def packageLost : String := "FUNC PACKAGE LOST"

/-- The detail of the error for a sample that the solver has not asked for. -/
def solverIdle : String := "SOLVER IDLE"

/-- The detail of the error for a sample that the integrator has not asked for. -/
def integratorIdle : String := "INTEGRATOR IDLE"

/-- An error that does not say that the machine has lost something of its own. -/
def IsOrdinary (error : Error) : Prop :=
  error.detail ∉ [packageLost, solverIdle, integratorIdle] ∧ error.kind ≠ .returnLost

instance (error : Error) : Decidable error.IsOrdinary :=
  inferInstanceAs (Decidable (_ ∧ _))

/-- A class of errors that has all ordinary ones. -/
class IsClass (permitted : Error → Prop) : Prop where
  ordinary : ∀ {error}, IsOrdinary error → permitted error

instance : IsClass IsOrdinary := ⟨id⟩

/-- An error other than a lost package. -/
def KeepsPackages (error : Error) : Prop := error.detail ≠ packageLost

instance (error : Error) : Decidable error.KeepsPackages :=
  inferInstanceAs (Decidable (_ ≠ _))

instance : IsClass KeepsPackages :=
  ⟨fun ordinary lost => ordinary.1 (by simp [lost])⟩

/-- Whether an error is ordinary can be read off where it is made. -/
@[simp]
theorem isOrdinary_mk {kind : ErrorKind} {detail : String} :
    (Error.mk kind detail).IsOrdinary ↔
      detail ≠ "FUNC PACKAGE LOST" ∧ detail ≠ "SOLVER IDLE" ∧ detail ≠ "INTEGRATOR IDLE" ∧
        kind ≠ .returnLost := by
  simp [IsOrdinary, packageLost, solverIdle, integratorIdle, and_assoc]

theorem IsOrdinary.keepsPackages {error : Error} (ordinary : error.IsOrdinary) :
    error.KeepsPackages :=
  IsClass.ordinary ordinary

theorem keepsPackages_plain (kind : ErrorKind) : (Error.plain kind).KeepsPackages := by
  simp [KeepsPackages, plain, packageLost]

theorem isOrdinary_plain {kind : ErrorKind} (found : (kind == .returnLost) = false) :
    (Error.plain kind).IsOrdinary :=
  ⟨by simp [plain, packageLost, solverIdle, integratorIdle], beq_eq_false_iff_ne.mp found⟩

end Error

namespace Outcome

variable {α β : Type}

/-- An outcome is a result with a property, or an error of a permitted class. -/
def EndsIn (permitted : Error → Prop) (property : α → Prop) : Outcome α → Prop
  | .ok result => property result
  | .error error => permitted error

/-- An outcome is a result with a property, or an ordinary error. -/
abbrev Ends (property : α → Prop) (outcome : Outcome α) : Prop :=
  outcome.EndsIn Error.IsOrdinary property

/-- An outcome that may be anything but an error that is not ordinary. -/
abbrev IsOrdinary (outcome : Outcome α) : Prop := Ends (fun _ => True) outcome

/-- An outcome whose only error is a crash. -/
abbrev OnlyCrashes (outcome : Outcome α) : Prop := EndsIn (· = .plain .crash) (fun _ => True) outcome

variable {permitted : Error → Prop} {property : α → Prop}

@[simp]
theorem ends_ok {result : α} : EndsIn permitted property (.ok result) ↔ property result :=
  Iff.rfl

@[simp]
theorem ends_pure {result : α} : EndsIn permitted property (pure result) ↔ property result :=
  Iff.rfl

@[simp]
theorem ends_error {error : Error} : EndsIn permitted property (.error error) ↔ permitted error :=
  Iff.rfl

@[simp]
theorem ends_fail [Error.IsClass permitted] {kind : ErrorKind}
    (found : (kind == .returnLost) = false) : EndsIn permitted property (fail kind) :=
  Error.IsClass.ordinary (Error.isOrdinary_plain found)

@[simp]
theorem ends_failWith {kind : ErrorKind} {detail : String} :
    EndsIn permitted property (failWith kind detail) ↔ permitted ⟨kind, detail⟩ :=
  Iff.rfl

theorem EndsIn.imp {weaker : α → Prop} {outcome : Outcome α}
    (ends : EndsIn permitted property outcome)
    (weaken : ∀ result, property result → weaker result) : EndsIn permitted weaker outcome := by
  cases outcome with
  | ok result => exact weaken result ends
  | error error => exact ends

/-- More errors may be permitted. -/
theorem EndsIn.permit {wider : Error → Prop} {outcome : Outcome α}
    (ends : EndsIn permitted property outcome) (widen : ∀ error, permitted error → wider error) :
    EndsIn wider property outcome := by
  cases outcome with
  | ok result => exact ends
  | error error => exact widen error ends

/-- Ordinary errors are permitted in any class. -/
theorem EndsIn.within [Error.IsClass permitted] {outcome : Outcome α}
    (ends : Ends property outcome) : EndsIn permitted property outcome :=
  ends.permit fun _ ordinary => Error.IsClass.ordinary ordinary

theorem EndsIn.isOrdinary_of_crash {outcome : Outcome α} (crashes : OnlyCrashes outcome) : IsOrdinary outcome :=
  crashes.permit fun _ isCrash => isCrash ▸ Error.isOrdinary_plain rfl

theorem EndsIn.isOrdinary {outcome : Outcome α} (ends : Ends property outcome) :
    IsOrdinary outcome :=
  ends.imp fun _ _ => trivial

/-- What is known of a result may be which one it is. -/
theorem EndsIn.result {outcome : Outcome α} (ends : EndsIn permitted property outcome) :
    EndsIn permitted (outcome = .ok ·) outcome := by
  cases outcome with
  | ok result => rfl
  | error error => exact ends

theorem EndsIn.bind {final : β → Prop} {outcome : Outcome α} {next : α → Outcome β}
    (ends : EndsIn permitted property outcome)
    (endsNext : ∀ result, property result → EndsIn permitted final (next result)) :
    EndsIn permitted final (outcome >>= next) := by
  cases outcome with
  | ok result => exact endsNext result ends
  | error error => exact ends

theorem EndsIn.map {final : β → Prop} {outcome : Outcome α} {f : α → β}
    (ends : EndsIn permitted property outcome)
    (becomes : ∀ result, property result → final (f result)) :
    EndsIn permitted final (f <$> outcome) := by
  cases outcome with
  | ok result => exact becomes result ends
  | error error => exact ends

theorem ends_ite {condition : Prop} [Decidable condition] {first second : Outcome α}
    (yes : condition → EndsIn permitted property first)
    (no : ¬ condition → EndsIn permitted property second) :
    EndsIn permitted property (if condition then first else second) := by
  split
  · exact yes ‹_›
  · exact no ‹_›

theorem ends_mapM {γ : Type} {f : γ → Outcome α} {items : List γ}
    (each : ∀ item ∈ items, Ends property (f item)) :
    Ends (fun results => ∀ result ∈ results, property result) (items.mapM f) := by
  induction items with
  | nil => simp
  | cons item items ih =>
      rw [List.mapM_cons]
      refine (each item List.mem_cons_self).bind fun first held => ?_
      refine (ih fun item member => each item (List.mem_cons_of_mem _ member)).bind fun rest heldRest => ?_
      rw [ends_pure]
      exact List.forall_mem_cons.mpr ⟨held, heldRest⟩

theorem ordinary_map_iff {f : α → β} {outcome : Outcome α} :
    IsOrdinary (f <$> outcome) ↔ IsOrdinary outcome := by
  cases outcome <;> exact Iff.rfl

theorem ordinary_mapM_vector {γ : Type} {size : Nat} {f : γ → Outcome α} {items : Vector γ size}
    (each : ∀ item, IsOrdinary (f item)) : IsOrdinary (items.mapM f) := by
  rw [← ordinary_map_iff, Vector.toArray_mapM, ← ordinary_map_iff, Array.toList_mapM]
  exact (ends_mapM fun item _ => each item).isOrdinary

theorem ordinary_foldlM {γ : Type} {f : α → γ → Outcome α} {items : List γ} {start : α}
    (each : ∀ before item, IsOrdinary (f before item)) : IsOrdinary (items.foldlM f start) := by
  induction items generalizing start with
  | nil => trivial
  | cons item items ih =>
      rw [List.foldlM_cons]
      exact (each start item).bind fun _ _ => ih

end Outcome

end Keystroke
