import Mathlib
import Keystroke.Proofs.Calls.Inputs
import Keystroke.Proofs.Calls.Reloads
import Keystroke.Proofs.Places.Leaving

/-!
# Searches never lose their place

Whatever a host enters, presses or lets a new machine do, and whichever layout the machine is saved in and
loaded from, the searches that are among its calls are in place. Nothing is asked of what is entered: a
program may change what calls keep, which loses a package, but not who called.
-/

namespace Keystroke

open Keystroke.Action

/-- The errors that an event shows. -/
def Event.shown : Event → List Error
  | .errors raised => raised
  | _ => []

namespace StateFile

variable {version : Nat} {calls : Calls} {machine : Machine}

/-- The callers that are read of frames are those that were written. -/
theorem FramesComeBack.callers {returns result : Returns}
    (comesBack : FramesComeBack version returns result)
    (distinct : ∀ frame ∈ returns.items, frame.caller.IsDistinct) :
    result.items.map Frame.caller = returns.items.map Frame.caller := by
  have frames := comesBack.frames
  generalize returns.items = items, result.items = read at frames distinct
  induction frames with
  | nil => rfl
  | cons same _ ih =>
      rw [List.forall_mem_cons] at distinct
      rw [List.map_cons, List.map_cons, same.caller distinct.1, ih distinct.2]

/-- Searches come back with their stages, and their calls with their callers. -/
theorem IsRestored.obeys_inPlace {result : Machine} {lost : Prop} {older : Nat}
    (restored : IsRestored calls.names version machine result)
    (placed : calls.IsPlaced lost older machine.nextStorage) (settled : machine.IsSettled calls 0)
    (distinct : ∀ frame ∈ machine.returns.items, frame.caller.IsDistinct) :
    result.Obeys (Calls.IsPlaced lost older) := by
  have inPlace := placed.inPlace
  rw [← settled.returns, ← settled.solver, ← settled.integrator,
    ← restored.returns.callers distinct] at inPlace
  refine ⟨result.callsWith calls.names, { restored.isStored placed.toIsStored settled with
    names := placed.names
    inPlace := (inPlace.setSolver (.inr restored.solver.2)).setIntegrator (.inr restored.integrator.2)
    located := ?_
    losses := ?_ }, restored.isSettled settled⟩
  · simp [Machine.callsWith, restored.errors]
  · simp [Machine.callsWith, restored.errors]

end StateFile

namespace Machine

variable {machine : Machine} {lost : Prop} {older : Nat}

/-! ## Every machine that can be reached -/

/-- The machines that a host with memory for no more elements than a file has words for gets from a new one by
any inputs, and by going back to machines that it saved. A file has four bytes for a caller, so the host does
not go back to a machine with calls from one of the programs beyond four billion whose numbers would stand for
the searches. -/
inductive IsReachable : Machine → Prop
  | new {memory : Nat} (room : memory ≤ Grid.sizeLimit) (generator : Generator) :
    IsReachable (new memory generator)
  | after {machine : Machine} (reachable : IsReachable machine) (input : Input) :
    IsReachable (machine.after input)
  | reloaded {machine other : Machine} (reachable : IsReachable machine)
    (distinct : ∀ frame ∈ machine.returns.items, frame.caller.IsDistinct)
    (otherReachable : IsReachable other) (version : Nat) (platform : String) (generator : Generator) :
    IsReachable (machine.reloadedBy version platform generator other)

theorem IsReachable.initial (generator : Generator) : (initial generator).IsReachable := .new le_rfl generator

/-- The searches among the calls of a machine are in place. -/
abbrev IsPlaced (machine : Machine) : Prop := machine.Obeys (Calls.IsPlaced True 0)

/-- A law of places has nothing against any instruction, unless the error for a lost search is asked for. -/
theorem isAllowed_inPlace {instruction : Instruction}
    (raises : instruction.opcode = .returnError → lost) :
    instruction.IsAllowed (Calls.IsPlaced lost older) machine where
  names _ _ _ := List.not_mem_nil
  raises returns _ := Error.keepsPlaces_plain _ (raises returns)

/-- Any sequence of inputs and reloads. -/
theorem IsReachable.isPlaced (reachable : machine.IsReachable) : machine.IsPlaced := by
  induction reachable with
  | new room generator => exact obeys_new_inPlace room generator
  | after _ input placed =>
      exact placed.after
        (input.performsOnly_of_forall (fun _ _ => isAllowed_inPlace fun _ => trivial) _)
  | reloaded _ distinct _ version platform generator placed placedOther =>
      obtain ⟨calls, placed, settled⟩ := placed
      exact obeys_reloadedBy placed.toIsStored settled
        (fun _ restored => restored.obeys_inPlace placed settled distinct) placedOther platform generator

/-- From here on, there are no more losses than there are, unless they may be asked for. -/
theorem IsPlaced.obeys (placed : machine.IsPlaced) (lost : Prop) :
    machine.Obeys (Calls.IsPlaced lost (machine.errors.countP Error.isLoss)) := by
  obtain ⟨calls, placed, settled⟩ := placed
  refine ⟨calls, { placed with losses := fun _ => ?_ }, settled⟩
  rw [settled.errors]

/-! ## The errors of an input -/

/-- The errors that the host is shown for an input, and those that it has still to be shown after it. -/
def errorsAfter (machine : Machine) : Input → List Error
  | .execute turns => (machine.execute turns).1.shown ++ (machine.execute turns).2.errors
  | input => (machine.after input).errors

/-- What is taken as news was there. -/
theorem errors_takeNews (machine : Machine) :
    machine.takeNews.1.shown ++ machine.takeNews.2.errors = machine.errors := by
  unfold takeNews
  split
  · exact List.append_nil _
  · split
    · rfl
    · rfl
    · cases machine.isBusy <;> rfl

/-- The errors of an input are those of a machine that obeys the same law. -/
theorem Obeys.exists_errorsAfter {law : Calls → Nat → Prop} [Calls.Law law] [Calls.Maintained law]
    (obeys : machine.Obeys law) {input : Input}
    (allowed : input.PerformsOnly (Instruction.IsAllowed law) machine) :
    ∃ left : Machine, left.Obeys law ∧ machine.errorsAfter input = left.errors := by
  cases input with
  | execute turns =>
      rw [errorsAfter, Machine.execute]
      split
      · exact ⟨machine, obeys, machine.errors_takeNews⟩
      · next quiet =>
          exact ⟨Machine.work turns machine, obeys.work (allowed (by simpa using quiet)),
            (Machine.work turns machine).errors_takeNews⟩
  | enter line => exact ⟨_, obeys.after allowed, rfl⟩
  | press key => exact ⟨_, obeys.after allowed, rfl⟩
  | interrupt => exact ⟨_, obeys.after allowed, rfl⟩
  | draw generator => exact ⟨_, obeys.after allowed, rfl⟩

theorem IsPlaced.errorsAfter (placed : machine.IsPlaced) {input : Input}
    (raises : input.PerformsOnly (fun instruction _ => instruction.opcode = .returnError → lost) machine) :
    (∀ error ∈ machine.errorsAfter input, error.IsLocated) ∧
      (¬ lost →
        (machine.errorsAfter input).countP Error.isLoss ≤ machine.errors.countP Error.isLoss) := by
  obtain ⟨left, ⟨calls, placedLeft, settled⟩, same⟩ :=
    (placed.obeys lost).exists_errorsAfter (raises.imp fun _ _ => isAllowed_inPlace)
  rw [same, settled.errors]
  exact ⟨placedLeft.located, placedLeft.losses⟩

/-! ## Searches keep their places -/

/-- The line at the current address has an opcode. -/
def IsAt (machine : Machine) (opcode : Opcode) : Prop :=
  ∃ fetched, machine.library.fetch machine.program (machine.address.getD 0) true = .ok fetched ∧
    fetched.1.instruction.opcode = opcode

/-- An action may end in an error, whether or not a program runs and X is printed when it stops. -/
def MayRaise (machine : Machine) (action : Action Unit) (error : Error) : Prop :=
  ∃ isRunning printsOnStop, (action.on { machine with isRunning, printsOnStop }).1 = .error error

theorem Obeys.permitted {law : Calls → Nat → Prop} [Calls.Law law] (obeys : machine.Obeys law)
    {action : Action Unit}
    (leads : ∀ isRunning printsOnStop,
      ({ machine with isRunning, printsOnStop } : Machine).Obeys law →
        action.Upholds law { machine with isRunning, printsOnStop })
    {error : Error} (raises : machine.MayRaise action error) : Calls.Law.permitted law error := by
  obtain ⟨isRunning, printsOnStop, ends⟩ := raises
  have obeysChanged : ({ machine with isRunning, printsOnStop } : Machine).Obeys law :=
    obeys.change (fun _ settled => { settled with }) le_rfl
  exact ((leads _ _ obeysChanged).of_error (Prod.ext ends rfl)).2

/-- The searches of a machine are in place, and nothing that is done will find that one is not. -/
structure KeepsPlaces (machine : Machine) : Prop where
  solvers : (machine.returns.items.map Frame.caller).count .solver ≤ 1
  integrators : (machine.returns.items.map Frame.caller).count .integrator ≤ 1
  solving : .solver ∈ machine.returns.items.map Frame.caller →
    1 ≤ machine.solver.stage ∧ machine.solver.stage ≤ 7
  integrating : .integrator ∈ machine.returns.items.map Frame.caller → machine.integrator.stage = 2
  /-- A search may be said to be lost by the one command that raises whichever error it is told to. -/
  perform : ∀ (instruction : Instruction) target error, machine.MayRaise (perform instruction target) error →
    error.KeepsPlaces (instruction.opcode = .returnError)
  step : ∀ error, machine.MayRaise step error → error.KeepsPlaces (machine.IsAt .returnError)
  task : ∀ task error, machine.MayRaise (continueTask task) error → error.KeepsPlaces False
  located : ∀ input, ∀ error ∈ machine.errorsAfter input, error.IsLocated
  losses : ∀ input : Input,
    input.PerformsOnly (fun instruction _ => instruction.opcode ≠ .returnError) machine →
      (machine.errorsAfter input).countP Error.isLoss ≤ machine.errors.countP Error.isLoss

/-- Searches keep their places in every machine that can be reached. -/
theorem IsReachable.keepsPlaces (reachable : machine.IsReachable) : machine.KeepsPlaces := by
  have placed := reachable.isPlaced
  obtain ⟨calls, placedCalls, settled⟩ := reachable.isPlaced
  have inPlace := placedCalls.inPlace
  rw [← settled.returns, ← settled.solver, ← settled.integrator] at inPlace
  refine
    { solvers := inPlace.solvers
      integrators := inPlace.integrators
      solving := inPlace.solving
      integrating := inPlace.integrating
      perform := fun instruction target error => ?_
      step := fun error => ?_
      task := fun task error => ?_
      located := fun input => ?_
      losses := fun input raises => ?_ }
  · exact (placed.obeys (instruction.opcode = .returnError)).permitted fun _ _ obeys =>
      leads_perform obeys (isAllowed_inPlace id) target
  · exact (placed.obeys (machine.IsAt .returnError)).permitted fun _ _ obeys =>
      leads_step obeys fun fetched found => isAllowed_inPlace fun returns => ⟨fetched, found, returns⟩
  · exact (placed.obeys False).permitted fun _ _ obeys => leads_continueTask obeys task
  · exact (placed.errorsAfter (input.performsOnly_of_forall (fun _ _ _ => trivial) machine)).1
  · exact (placed.errorsAfter raises).2 not_false

/-- Solve for a variable, with a function that integrates. -/
def searchInputs : List Input :=
  ["PRGM", "LBL \"F\"", "INTEG \"T\"", "RTN", "LBL \"G\"", "RTN", "PRGM", "PGMSLV \"F\"", "PGMINT \"G\"",
    "0", "STO \"LLIM\"", "STO \"ULIM\"", "STO \"ACC\"", "SOLVE \"X\""].map .enter ++ [.execute 2]

theorem IsReachable.afterAll (reachable : machine.IsReachable) (inputs : List Input) :
    (inputs.foldl Machine.after machine).IsReachable := by
  induction inputs generalizing machine with
  | nil => exact reachable
  | cons input inputs ih => exact ih (reachable.after input)

/-- A machine in a sample of the integrator, in a sample of the solver, saved and loaded again. -/
def inSample : Machine :=
  (searchInputs.foldl after (initial default)).reloadedBy 47 "linux" default (initial default)

/-- Both searches wait for a sample. -/
theorem keepsPlaces_inSample :
    inSample.IsReachable ∧ inSample.returns.items.map Frame.caller = [.integrator, .solver] ∧
      inSample.KeepsPlaces := by
  have saved : (searchInputs.foldl after (initial default)).returns.items.map Frame.caller =
        [.integrator, .solver] ∧
      inSample.returns.items.map Frame.caller = [.integrator, .solver] := by decide +kernel
  have reachable : inSample.IsReachable := by
    refine ((IsReachable.initial default).afterAll searchInputs).reloaded (fun frame member index => ?_)
      (.initial default) 47 "linux" default
    have isCaller : frame.caller ∈ [Caller.integrator, .solver] := saved.1 ▸ List.mem_map_of_mem member
    intro isProgram
    simp [isProgram] at isCaller
  exact ⟨reachable, saved.2, reachable.keepsPlaces⟩

end Machine

end Keystroke
