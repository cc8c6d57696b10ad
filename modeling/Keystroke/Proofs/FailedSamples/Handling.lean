import Mathlib
import Keystroke.Proofs.Calls.Discipline
import Keystroke.Proofs.FailedSamples.GoingOn
import Keystroke.Proofs.FailedSamples.Unwinding
import Keystroke.Proofs.Places.Reachable

/-!
# Failed samples

An error in a solved function does not stop the program: the calls down to the solver are left, and the
search goes on in the calls below. This holds in every machine that can be reached.
-/

namespace Keystroke

open Keystroke.Action

namespace Machine

variable {machine after : Machine}

/-! ## Stopping -/

theorem exists_tellLines_eq (machine : Machine) (lines : List String) :
    ∃ calls, machine.tellLines lines = { machine with calls } := by
  rw [tellLines]
  induction lines generalizing machine with
  | nil => exact ⟨machine.calls, rfl⟩
  | cons line lines ih =>
      obtain ⟨calls, same⟩ := ih (machine.tell (.printed (Text.toBytes line)))
      exact ⟨calls, same⟩

theorem exists_printLines_eq (machine : Machine) (lines : Machine → Outcome (List String)) :
    ∃ calls, ((printLines lines).on machine).2 = { machine with calls } := by
  rw [printLines, on_bind_ok (on_get _), on_bind, on_lift]
  cases machine.printerReady with
  | error error => exact ⟨machine.calls, rfl⟩
  | ok ready =>
      cases ready with
      | false => exact ⟨machine.calls, rfl⟩
      | true =>
          simp only [if_true]
          rw [on_bind, on_lift]
          cases lines machine with
          | error error => exact ⟨machine.calls, rfl⟩
          | ok printed => exact exists_tellLines_eq machine printed

/-- A machine that stops may print X, and show why it cannot. -/
theorem exists_stop_eq (machine : Machine) : ∃ printsOnStop calls printing, machine.stop = { machine with
    isRunning := false
    task := none
    printsOnStop
    calls
    errors := machine.errors ++ printing } ∧
      printing.length ≤ 1 ∧ (machine.printsOnStop = false → printing = []) := by
  obtain ⟨calls, printed⟩ : ∃ calls, (printX.on
      { machine with isRunning := false, task := none, printsOnStop := false }).2 = _ :=
    exists_printLines_eq _ _
  rw [stop]
  dsimp only
  split
  · split
    · next ran =>
        rw [ran] at printed
        obtain rfl : _ = _ := printed
        exact ⟨false, calls, [], by rw [List.append_nil], Nat.zero_le 1, fun _ => rfl⟩
    · next prints _ error left ran =>
        rw [ran] at printed
        obtain rfl : left = _ := printed
        exact ⟨false, calls, [error], rfl, le_rfl, fun silent => absurd (silent.symm.trans prints) (by decide)⟩
  · exact ⟨machine.printsOnStop, machine.calls, [], by rw [List.append_nil], Nat.zero_le 1, fun _ => rfl⟩

theorem returns_skipLine (machine : Machine) : machine.skipLine.returns = machine.returns := by
  rw [skipLine]
  split
  · split <;> rfl
  · rfl

theorem returns_stop (machine : Machine) : machine.stop.returns = machine.returns := by
  obtain ⟨_, _, _, same, -⟩ := machine.exists_stop_eq
  rw [same]

/-- Where no search is in progress, an error leaves no call. -/
theorem returns_handleWithin (idle : machine.isSolving = false) (fuel : Nat) (error : Error) :
    (handleWithin fuel error machine).returns = machine.returns := by
  fun_cases Machine.handleWithin fuel error machine
  case case1 | case2 | case3 | case5 | case7 | case8 | case9 => rfl
  case case4 => exact machine.returns_skipLine
  case case6 => exact machine.returns_stop
  case case10 fails | case11 fails =>
      rw [idle, Bool.and_false] at fails
      cases fails
  case case12 => exact returns_stop { machine with address := machine.executed }

/-- Where no search is in progress, an error that is no signal is remembered. -/
theorem lastError_handleWithin (idle : machine.isSolving = false) (fuel : Nat) {error : Error}
    (shown : error.kind.isSignal = false) :
    (handleWithin fuel error machine).lastError = error.kind.code := by
  fun_cases Machine.handleWithin fuel error machine
  case case1 isSignal | case2 isSignal | case3 isSignal | case4 isSignal _ | case5 isSignal _ |
      case6 isSignal | case7 isSignal =>
    rw [isSignal] at shown
    cases shown
  case case8 | case9 | case12 => rfl
  case case10 fails | case11 fails =>
      rw [idle, Bool.and_false] at fails
      cases fails

/-- What a machine comes to when it deals with the error that an action may have ended in. -/
def dealtWith (fuel : Nat) : Outcome Unit × Machine → Machine
  | (.ok (), left) => left
  | (.error error, left) => handleWithin fuel error left

/-- A running program that heeds errors gives an error of a sample to the solver. -/
theorem handle_of_isFailedSample (running : machine.isRunning = true)
    (heeds : machine.flags.get Flags.errorIgnored = false) (solving : machine.isSolving = true)
    {error : Error} (isFailed : error.kind.isFailedSample = true) :
    machine.handle error = dealtWith machine.returns.depth (failSample.on machine) := by
  rcases error with ⟨kind, detail⟩
  cases kind
  case outOfRange | divideByZero | invalidData | statMathError =>
    rw [handle, handleWithin]
    simp only [running, heeds, solving, ErrorKind.isFailedSample, Bool.not_true, Bool.false_eq_true,
      if_false, Bool.and_true]
    rcases failSample.on machine with ⟨_ | _, left⟩ <;> rfl
  all_goals cases isFailed

/-- What becomes of a search in the calls of a machine. -/
inductive ContinuesSearch (machine after : Machine) : Prop
  | sample (samples : machine.SamplesAgain after)
  | finish (finishes : machine.FinishesSolving after)
    (runs : after.isRunning = machine.solver.keepsRunning)
  | refuse {error : Error} (cannot : ¬ machine.CanSample) (shown : error.kind.isSignal = false)
    (remembered : after.lastError = error.kind.code) (returns : after.returns = machine.returns)

theorem FinishesSolving.stop (finishes : machine.FinishesSolving after) :
    machine.FinishesSolving after.stop := by
  obtain ⟨_, _, _, same, -⟩ := after.exists_stop_eq
  rw [same]
  exact { finishes with }

/-- The machine deals with what a search raises. -/
theorem GoesOn.continuesSearch {result : Outcome Unit × Machine} (goesOn : machine.GoesOn result)
    (running : machine.isRunning = true) (idle : .solver ∉ machine.returns.items.map Frame.caller)
    (fuel : Nat) : machine.ContinuesSearch (dealtWith fuel result) := by
  cases goesOn with
  | sample samples =>
      rw [dealtWith, handleWithin, Error.plain]
      exact .sample samples
  | resume finishes runs same => exact .finish finishes (same.trans (running.trans runs.symm))
  | @stop left finishes stops =>
      rw [dealtWith, handleWithin, Error.plain]
      refine .finish finishes.stop ?_
      obtain ⟨_, _, _, same, -⟩ := left.exists_stop_eq
      rw [same, stops]
  | @refuse left error cannot shown returns =>
      have idleLeft : left.isSolving = false := by
        rw [isSolving, returns, List.any_eq_false]
        intro frame member isSolver
        exact idle (List.mem_map.mpr ⟨frame, member, beq_iff_eq.mp isSolver⟩)
      exact .refuse cannot shown (lastError_handleWithin idleLeft fuel shown)
        ((returns_handleWithin idleLeft fuel error).trans returns)

/-! ## Failed samples -/

/-- An error of a machine is a failed sample: the calls above and with the latest one of the solver are
left, and the solver goes on in the calls below. -/
structure FailsSample (machine : Machine) (above : List Frame) (frame : Frame) (below : List Frame)
    (left after : Machine) : Prop where
  frames : machine.returns.items = above ++ frame :: below
  isSolver : frame.caller = .solver
  innermost : ∀ other ∈ above, other.caller ≠ .solver
  unwinds : unwind.on machine = (.ok ((above ++ [frame]).any Frame.stops), left)
  leaves : machine.Leaves (above.length + 1) left
  returns : left.returns = { machine.returns with items := below }
  levels : ∀ entry ∈ left.bindings.entries, entry.level ≤ below.length
  /-- The outermost package counts, if there is a stack in it. -/
  saved : ∀ (level : Nat) isBig saved, below.length < level → level ≤ machine.returns.depth →
    machine.packageAt? level = some ⟨isBig, some saved⟩ →
      (∀ further : Nat, below.length < further → further < level → machine.packageAt? further = none) →
        left.stack = .ofValues isBig saved.values ∧ left.lastX = saved.lastX
  unsaved : (∀ level : Nat, below.length < level → level ≤ machine.returns.depth →
      machine.packageAt? level = none) → left.stack = machine.stack ∧ left.lastX = machine.lastX
  continues : (left.toldToStop ((above ++ [frame]).any Frame.stops)).ContinuesSearch after

/-- The latest call of the solver. -/
theorem exists_innermost (solving : machine.isSolving = true) :
    ∃ above frame below, machine.returns.items = above ++ frame :: below ∧ frame.caller = .solver ∧
      ∀ other ∈ above, other.caller ≠ .solver := by
  have found : (machine.returns.items.find? fun frame => frame.caller == .solver).isSome := by
    rw [List.find?_isSome]
    exact List.any_eq_true.mp solving
  obtain ⟨frame, found⟩ := Option.isSome_iff_exists.mp found
  obtain ⟨isSolver, above, below, items, others⟩ := List.find?_eq_some_iff_append.mp found
  refine ⟨above, frame, below, items, beq_iff_eq.mp isSolver, fun other member => ?_⟩
  simpa using others other member

theorem IsPlaced.isStage (placed : machine.IsPlaced)
    (solving : .solver ∈ machine.returns.items.map Frame.caller) : Solver.IsStage machine.solver.stage := by
  obtain ⟨calls, placed, settled⟩ := placed
  rw [settled.solver]
  exact placed.inPlace.solving (settled.returns ▸ solving)

/-- Below a call of the solver there is no other. -/
theorem IsPlaced.solver_not_mem_below (placed : machine.IsPlaced) {above below : List Frame} {frame : Frame}
    (items : machine.returns.items = above ++ frame :: below) (isSolver : frame.caller = .solver) :
    .solver ∉ below.map Frame.caller := by
  obtain ⟨calls, placed, settled⟩ := placed
  have single := placed.inPlace.solvers
  rw [← settled.returns, items, List.map_append, List.map_cons, isSolver, List.count_append,
    List.count_cons_self] at single
  exact List.count_eq_zero.mp (by omega)

/-- With one call fewer there is room for another. -/
theorem IsSound.room (sound : machine.IsSound) {returns : Returns}
    (limit : returns.limit = machine.returns.limit) (fewer : returns.depth < machine.returns.depth) :
    returns.isFull = false := by
  obtain ⟨calls, sound, settled⟩ := sound
  have limited := sound.limit
  have depth := sound.depth
  rw [← settled.returns] at limited depth
  rw [BoundedStack.isFull, decide_eq_false_iff_not, limit, limited]
  omega

theorem exists_failsSample (sound : machine.IsSound) (placed : machine.IsPlaced)
    (running : machine.isRunning = true) (heeds : machine.flags.get Flags.errorIgnored = false)
    (solving : machine.isSolving = true) {error : Error} (isFailed : error.kind.isFailedSample = true) :
    ∃ above frame below left, machine.FailsSample above frame below left (machine.handle error) := by
  obtain ⟨above, frame, below, items, isSolver, innermost⟩ := exists_innermost solving
  have stage : Solver.IsStage machine.solver.stage := by
    apply placed.isStage
    simp [items, isSolver]
  have idle := placed.solver_not_mem_below items isSolver
  have depth : machine.returns.depth = above.length + 1 + below.length := by
    rw [BoundedStack.depth, items, List.length_append, List.length_cons]
    omega
  have enough : above.length + 1 ≤ machine.returns.depth := by omega
  obtain ⟨left, unwinds, -, leaves⟩ := sound.exists_on_unwindToSolver items isSolver innermost enough
  have unwound : unwind.on machine = (.ok ((above ++ [frame]).any Frame.stops), left) := unwinds
  have returns : left.returns = { machine.returns with items := below } := by
    rw [leaves.returns, items]
    simp
  have room : left.returns.isFull = false := by
    apply sound.room
    · rw [returns]
    · rw [returns, depth]
      change below.length < _
      omega
  have sameSolver : left.solver = machine.solver := by rw [leaves.others]
  have goesOn := goesOn_returnToSolver (sameSolver ▸ stage) room ((above ++ [frame]).any Frame.stops)
  have failed : failSample.on machine = (returnToSolver true ((above ++ [frame]).any Frame.stops)).on left :=
    on_bind_ok unwound _
  refine ⟨above, frame, below, left,
    { frames := items
      isSolver
      innermost
      unwinds := unwound
      leaves
      returns
      levels := fun entry member => ?_
      saved := fun level isBig saved low high kept none => ?_
      unsaved := fun none => ?_
      continues := ?_ }⟩
  · have low := leaves.level_add_le member
    rw [Machine.level] at low
    omega
  · apply leaves.values_of_saved enough (by omega) high kept
    intro further low lt
    exact none further (by omega) lt
  · apply leaves.values_of_unsaved enough
    intro level low high
    exact none level (by omega) high
  · have runningLeft : left.isRunning = true := by
      rw [leaves.others]
      exact running
    rw [handle_of_isFailedSample running heeds solving isFailed, failed]
    apply goesOn.continuesSearch runningLeft
    change .solver ∉ left.returns.items.map Frame.caller
    rw [returns]
    exact idle

/-- Errors of a line that is executed in a solved function, in every machine that can be reached, are failed
samples. -/
theorem IsReached.step_failsSample (reached : machine.IsReached) (reachable : machine.IsReachable)
    (spares : machine.StepsOnly Instruction.Spares) {error : Error} {failing : Machine}
    (raises : step.on machine = (.error error, failing)) (isFailed : error.kind.isFailedSample = true)
    (running : failing.isRunning = true) (heeds : failing.flags.get Flags.errorIgnored = false)
    (solving : failing.isSolving = true) :
    ∃ above frame below left,
      failing.FailsSample above frame below left (performing step machine) := by
  have sound : failing.IsSound := ((leads_step reached.isSound fun fetched found =>
    isAllowed_of_spares (spares fetched found)).of_error raises).1
  have placed : failing.IsPlaced := ((leads_step reachable.isPlaced fun _ _ =>
    isAllowed_inPlace fun _ => trivial).of_error raises).1
  rw [performing, raises]
  exact exists_failsSample sound placed running heeds solving isFailed

/-- Solve a function that calls a subroutine with a stack of its own, up to a division by zero there. -/
def divisionInputs : List Input :=
  ["PRGM", "LBL \"F\"", "XEQ \"G\"", "RTN", "LBL \"G\"", "FUNC 11", "0", "1/X", "RTN", "PRGM",
    "PGMSLV \"F\"", "7", "SOLVE \"X\""].map .enter ++ [.execute 5]

def beforeDivision : Machine := divisionInputs.foldl Machine.after (initial default)

/-- The subroutine and the function are left, and the function is called again. -/
theorem step_failsSample_beforeDivision :
    (performing step beforeDivision).returns.items.map Frame.caller = [.solver] ∧
      ∃ (failing : Machine) (above : List Frame) (frame : Frame) (below : List Frame) (left : Machine),
        failing.returns.items.map Frame.caller = [.program 0, .solver] ∧
          failing.FailsSample above frame below left (performing step beforeDivision) := by
  obtain ⟨spare, spares, error, running, heeds, solving, callers, again⟩ :
      Input.AllSpare divisionInputs (initial default) ∧ beforeDivision.StepsOnly Instruction.Spares ∧
        (step.on beforeDivision).1 = .error (.plain .divideByZero) ∧
        (step.on beforeDivision).2.isRunning = true ∧
        (step.on beforeDivision).2.flags.get Flags.errorIgnored = false ∧
        (step.on beforeDivision).2.isSolving = true ∧
        (step.on beforeDivision).2.returns.items.map Frame.caller = [.program 0, .solver] ∧
        (performing step beforeDivision).returns.items.map Frame.caller = [.solver] := by
    decide +kernel
  rcases raises : step.on beforeDivision with ⟨outcome, failing⟩
  rw [raises] at error running heeds solving callers
  dsimp only at error running heeds solving callers
  subst error
  have reached : beforeDivision.IsReached := (IsReached.initial default).afterAll spare
  have reachable : beforeDivision.IsReachable := (IsReachable.initial default).afterAll divisionInputs
  obtain ⟨above, frame, below, left, fails⟩ :=
    reached.step_failsSample reachable spares raises rfl running heeds solving
  exact ⟨again, failing, above, frame, below, left, callers, fails⟩

end Machine

end Keystroke
