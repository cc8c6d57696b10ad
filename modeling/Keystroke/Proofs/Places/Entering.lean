import Mathlib
import Keystroke.Proofs.Calls.Upkeep

/-!
# Searches in place

A search is in place if it has at most one call, and is still in the stage in which it made this call. The
law says nothing of what calls keep, so the variables in which they keep it are like any others: a program
may store in them, and a package may be lost, but no search is.
-/

namespace Keystroke

open Outcome Keystroke.Action
open Machine (packageName parkedEditorName keptMarks)

/-- The callers on a return stack are in place. -/
structure InPlace (callers : List Caller) (solver : Solver) (integrator : Integrator) : Prop where
  solvers : callers.count .solver ≤ 1
  integrators : callers.count .integrator ≤ 1
  solving : .solver ∈ callers → Solver.IsStage solver.stage
  integrating : .integrator ∈ callers → integrator.stage = Integrator.betweenSamples

namespace InPlace

variable {caller : Caller} {callers : List Caller} {solver : Solver} {integrator : Integrator}

theorem tail (inPlace : InPlace (caller :: callers) solver integrator) :
    InPlace callers solver integrator where
  solvers := (List.count_le_count_cons ..).trans inPlace.solvers
  integrators := (List.count_le_count_cons ..).trans inPlace.integrators
  solving member := inPlace.solving (List.mem_cons_of_mem _ member)
  integrating member := inPlace.integrating (List.mem_cons_of_mem _ member)

theorem solver_not_mem (inPlace : InPlace (.solver :: callers) solver integrator) :
    .solver ∉ callers := by
  have single := inPlace.solvers
  rw [List.count_cons_self] at single
  exact List.count_eq_zero.mp (by omega)

theorem integrator_not_mem (inPlace : InPlace (.integrator :: callers) solver integrator) :
    .integrator ∉ callers := by
  have single := inPlace.integrators
  rw [List.count_cons_self] at single
  exact List.count_eq_zero.mp (by omega)

theorem push_program (inPlace : InPlace callers solver integrator) (index : Nat) :
    InPlace (.program index :: callers) solver integrator where
  solvers := by simpa using inPlace.solvers
  integrators := by simpa using inPlace.integrators
  solving member := inPlace.solving (by simpa using member)
  integrating member := inPlace.integrating (by simpa using member)

theorem push_solver (inPlace : InPlace callers solver integrator) (idle : .solver ∉ callers)
    (inStage : Solver.IsStage solver.stage) : InPlace (.solver :: callers) solver integrator where
  solvers := by simp [List.count_eq_zero.mpr idle]
  integrators := by simpa using inPlace.integrators
  solving _ := inStage
  integrating member := inPlace.integrating (by simpa using member)

theorem push_integrator (inPlace : InPlace callers solver integrator) (idle : .integrator ∉ callers)
    (between : integrator.stage = Integrator.betweenSamples) :
    InPlace (.integrator :: callers) solver integrator where
  solvers := by simpa using inPlace.solvers
  integrators := by simp [List.count_eq_zero.mpr idle]
  solving member := inPlace.solving (by simpa using member)
  integrating _ := between

theorem setSolver (inPlace : InPlace callers solver integrator) {next : Solver}
    (idle : .solver ∉ callers ∨ next.stage = solver.stage) : InPlace callers next integrator :=
  { inPlace with
    solving := fun member =>
      (idle.resolve_left fun none => none member) ▸ inPlace.solving member }

theorem setIntegrator (inPlace : InPlace callers solver integrator) {next : Integrator}
    (idle : .integrator ∉ callers ∨ next.stage = integrator.stage) : InPlace callers solver next :=
  { inPlace with
    integrating := fun member =>
      (idle.resolve_left fun none => none member).trans (inPlace.integrating member) }

end InPlace

namespace Error

/-- An error that does not say that a search has got a sample without asking. -/
def IsLocated (error : Error) : Prop := error.detail ∉ [solverIdle, integratorIdle]

instance (error : Error) : Decidable error.IsLocated := inferInstanceAs (Decidable (_ ∉ _))

/-- The error for a search that is not among the calls any more. -/
def isLoss (error : Error) : Bool := error.kind == .returnLost

/-- An error of searches in place. Only what asks for the error for a lost search may raise it. -/
def KeepsPlaces (lost : Prop) (error : Error) : Prop :=
  error.IsLocated ∧ (error.isLoss = true → lost)

variable {lost : Prop}

theorem keepsPlaces_of_isOrdinary {error : Error} (ordinary : error.IsOrdinary) :
    error.KeepsPlaces lost :=
  ⟨fun idle => ordinary.1 (List.mem_cons_of_mem _ idle),
    fun isLoss => absurd (beq_iff_eq.mp isLoss) ordinary.2⟩

instance : IsClass (KeepsPlaces lost) := ⟨keepsPlaces_of_isOrdinary⟩

/-- An error without a detail is at worst one for a lost search. -/
theorem keepsPlaces_plain (kind : ErrorKind) (isLost : lost) : KeepsPlaces lost (.plain kind) :=
  ⟨show "" ∉ [solverIdle, integratorIdle] by decide, fun _ => isLost⟩

/-- A package that is gone is no matter of searches. -/
theorem keepsPlaces_packageLost : KeepsPlaces lost ⟨.internalError, packageLost⟩ :=
  ⟨by decide, Bool.noConfusion⟩

end Error

namespace Calls

/-- Calls whose searches are in place. None of the errors says that a search is not, and unless the error
for a lost search may be asked for, there are no more of these than there were. -/
structure IsPlaced (lost : Prop) (older : Nat) (calls : Calls) (bound : Nat) : Prop
    extends calls.IsStored bound where
  names : calls.names = []
  inPlace : InPlace (calls.returns.items.map Frame.caller) calls.solver calls.integrator
  located : ∀ error ∈ calls.errors, error.IsLocated
  losses : ¬ lost → calls.errors.countP Error.isLoss ≤ older

instance (lost : Prop) (older : Nat) : Law (IsPlaced lost older) where
  names := []
  permitted := Error.KeepsPlaces lost
  vacant caller returns := caller ∉ returns.items.map Frame.caller
  ordinary := Error.keepsPlaces_of_isOrdinary
  vacant_of_not_mem := id
  same_names := IsPlaced.names
  stored := IsPlaced.toIsStored
  later placed le := { placed with toIsStored := placed.toIsStored.later le }

namespace IsPlaced

variable {lost : Prop} {older : Nat} {calls : Calls} {bound : Nat}
  (placed : calls.IsPlaced lost older bound)

include placed

theorem push {frame : Frame}
    (awaits : Awaits (IsPlaced lost older) calls.returns calls.solver calls.integrator frame.caller)
    (room : calls.returns.depth < maximalReturns) :
    IsPlaced lost older
      { calls with returns := { calls.returns with items := frame :: calls.returns.items } } bound := by
  refine { placed with toIsStored := placed.toIsStored.push frame room, inPlace := ?_ }
  rw [List.map_cons]
  cases caller : frame.caller with
  | program index => exact placed.inPlace.push_program index
  | solver =>
      rw [caller] at awaits
      refine placed.inPlace.push_solver awaits.1 (awaits.2.resolve_right fun permitted => ?_)
      exact permitted.1 (by decide)
  | integrator =>
      rw [caller] at awaits
      refine placed.inPlace.push_integrator awaits.1 (awaits.2.resolve_right fun permitted => ?_)
      exact permitted.1 (by decide)

/-- Without the topmost call, the searches below it are in place, and its caller may go on. -/
theorem drop {frame : Frame} {rest : List Frame} (items : calls.returns.items = frame :: rest)
    (nothing : calls.kept = []) :
    IsPlaced lost older { calls with returns := { calls.returns with items := rest } } bound ∧
      Awaits (IsPlaced lost older) { calls.returns with items := rest } calls.solver calls.integrator
        frame.caller := by
  have inPlace := placed.inPlace
  rw [items, List.map_cons] at inPlace
  have fewer : rest.length ≤ maximalReturns := by
    have depth := placed.depth
    rw [BoundedStack.depth, items, List.length_cons] at depth
    omega
  refine ⟨{ placed with
    toIsStored := { placed.toIsStored with depth := fewer, levels := by simp [nothing] }
    inPlace := inPlace.tail }, ?_⟩
  cases caller : frame.caller with
  | program index => trivial
  | solver =>
      rw [caller] at inPlace
      exact ⟨inPlace.solver_not_mem, .inl (inPlace.solving List.mem_cons_self)⟩
  | integrator =>
      rw [caller] at inPlace
      exact ⟨inPlace.integrator_not_mem, .inl (inPlace.integrating List.mem_cons_self)⟩

/-- A mark on the topmost frame does not change who called. -/
theorem markTop {change : Frame → Frame} (keeps : ∀ frame, (change frame).caller = frame.caller) :
    IsPlaced lost older { calls with returns := calls.returns.modifyTop change } bound := by
  refine { placed with toIsStored := placed.toIsStored.markTop change, inPlace := ?_ }
  have inPlace := placed.inPlace
  rw [BoundedStack.modifyTop]
  split
  · exact inPlace
  · next items =>
      rw [items, List.map_cons] at inPlace
      rwa [List.map_cons, keeps]

theorem addError {error : Error} (keeps : error.KeepsPlaces lost) :
    IsPlaced lost older { calls with errors := calls.errors ++ [error] } bound := by
  refine { placed with located := fun other member => ?_, losses := fun none => ?_ }
  · rcases List.mem_append.mp member with older | added
    · exact placed.located other older
    · rw [List.mem_singleton.mp added]
      exact keeps.1
  · have notLoss : ¬ error.isLoss = true := fun isLoss => none (keeps.2 isLoss)
    rw [List.countP_append, List.countP_singleton, if_neg notLoss]
    exact placed.losses none

end IsPlaced

end Calls

namespace Machine

variable {lost : Prop} {older : Nat} {machine : Machine}

/-! ## Keeping something -/

variable {calls : Calls}

/-- What is kept in the present call is a variable like any other. -/
theorem IsSettled.keepInPlace (settled : machine.IsSettled calls 0)
    (placed : calls.IsPlaced lost older machine.nextStorage) (name : List UInt8) {value : Value}
    (fits : value.Fits (calls.free machine.nextStorage)) {change : Frame → Frame}
    (keeps : ∀ frame, (change frame).caller = frame.caller) :
    Ends (fun result => ({ machine with
        bindings := result.2
        returns := machine.returns.modifyTop change } : Machine).Obeys (Calls.IsPlaced lost older))
      (machine.bindings.storeLocal name value machine.level keptMarks) := by
  have unreserved : name ∉ calls.names := by simp [placed.names]
  refine (settled.bindings.storeLocal (IsSettled.globalLevel_le machine) unreserved fits keptMarks).imp
    fun result settledAfter => ?_
  have stored : ({ machine with bindings := result.2 } : Machine).IsSettled calls 0 :=
    { settled with bindings := settledAfter }
  have marked := stored.markTop change
  rw [stored.returns] at marked
  rw [settled.returns]
  exact ⟨_, placed.markTop keeps, marked⟩

theorem leads_keepPackage_inPlace (obeys : machine.Obeys (Calls.IsPlaced lost older))
    (package : CallPackage) (fit : ∀ calls floor, machine.IsSettled calls floor →
      package.Fits (calls.free machine.nextStorage)) :
    (keepPackage package).Upholds (Calls.IsPlaced lost older) machine := by
  obtain ⟨calls, placed, settled⟩ := obeys
  obtain ⟨le, fitsPacked⟩ := Value.fits_numbered settled.taken package.pack
    (CallPackage.fits_pack (fit calls 0 settled))
  have given := settled.giveOut le
  have placedLater := Calls.Law.later placed le
  let change (frame : Frame) : Frame := { frame with savesStack := true }
  have stored := given.keepInPlace placedLater packageName fitsPacked
    (show ∀ frame, (change frame).caller = frame.caller from fun _ => rfl)
  exact leads_adopt (leads_get (leads_lift ⟨calls, placedLater, given⟩ stored
    fun result kept => ⟨kept, trivial⟩))

theorem leads_parkEditor_inPlace (obeys : machine.Obeys (Calls.IsPlaced lost older)) :
    parkEditor.Upholds (Calls.IsPlaced lost older) machine := by
  refine leads_get ?_
  cases machine.editor with
  | none => exact ⟨obeys, trivial⟩
  | some editor =>
      let left : Machine := { machine with editor := none }
      have obeysLeft : left.Obeys (Calls.IsPlaced lost older) :=
        obeys.change (fun calls settled => { settled with editor := by simp }) le_rfl
      refine leads_set (leads_ite (fun _ => ⟨obeysLeft, trivial⟩) fun inCall => ?_)
      obtain ⟨calls, placed, settled⟩ := id obeysLeft
      refine leads_lift obeysLeft (editor.ends_pack (calls.free left.nextStorage)) fun package fits => ?_
      obtain ⟨le, fitsPacked⟩ := Value.fits_numbered settled.taken package fits
      have given := settled.giveOut le
      have placedLater := Calls.Law.later placed le
      let change (frame : Frame) : Frame := { frame with parksEditor := true }
      have stored := given.keepInPlace placedLater parkedEditorName fitsPacked
        (show ∀ frame, (change frame).caller = frame.caller from fun _ => rfl)
      exact leads_adopt (leads_lift ⟨calls, placedLater, given⟩ stored
        fun result kept => ⟨kept, trivial⟩)

end Machine

end Keystroke
