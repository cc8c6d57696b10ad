import Mathlib
import Keystroke.Proofs.Courses.Failing
import Keystroke.Proofs.Typing.Keys

/-!
# Single steps

Outside of program mode a single step executes the current line as a running program does, and stops. Only a line that
leaves work unfinished, and a search that calls its function, go on by themselves.
-/

namespace Keystroke

open Keystroke.Action

namespace Machine

variable {machine : Machine}

/-- The machine that a single step makes run: after a command X is printed while tracing. -/
def started (machine : Machine) : Machine :=
  { machine with printsOnStop := machine.isTracing, isRunning := true }

/-- A line that leaves no work, and calls no function of a search, stops the machine that it was to run. -/
theorem singleStep_eq (machine : Machine)
    (noTask : (performing step { machine with isRunning := true }).task = none)
    (noSample : ∀ error, (step.on { machine with isRunning := true }).1 = .error error → error.kind ≠ .run) :
    machine.singleStep = { performing step { machine with isRunning := true } with isRunning := false } := by
  rw [singleStep]
  rw [performing] at noTask ⊢
  rcases ran : step.on { machine with isRunning := true } with ⟨error | _, left⟩
  · rw [ran] at noTask noSample
    dsimp only at noTask noSample ⊢
    rw [if_pos (by simp [noSample error rfl, noTask])]
  · rw [ran] at noTask
    dsimp only at noTask ⊢
    rw [if_pos (by simp [noTask])]

/-- What a single step leaves. -/
structure RunsOneLine (machine after : Machine) : Prop where
  /-- It is what one turn of the running program leaves, stopped: where that goes on, with its calls and values. X may
  have been printed as it stopped. -/
  turned : ∃ printsOnStop calls printing, after = { machine.started.turn with
    isRunning := false
    printsOnStop
    calls
    errors := machine.started.turn.errors ++ printing } ∧ printing.length ≤ 1
  /-- Slices do no more than show the news. -/
  rests : ∀ turns, after.execute turns = after.takeNews
  /-- After an error that the host is shown, the place is that of the line. -/
  fails : ∀ error left, step.on machine.started = (.error error, left) → error.kind.isSignal = false →
    left.flags.get Flags.errorIgnored = false → (error.kind.isFailedSample && left.isSolving) = false →
      error ∈ after.errors ∧ ∃ fetched, (machine.started.executing fetched).Fails fetched.1.instruction.opcode error
        after.program after.address

/-- A machine that is not busy does no more than show the news. -/
theorem execute_of_not_busy (idle : machine.isBusy = false) (turns : Nat) :
    machine.execute turns = machine.takeNews := by
  have rests : Machine.work turns machine = machine := by
    cases turns with
    | zero => rfl
    | succ turns => rw [Machine.work, if_pos (by simp [idle])]
  rw [execute, rests, ite_self]

/-- A command to step is executed by itself. -/
theorem executeTyped_singleStep (stopped : machine.isRunning = false) (executing : machine.isProgramming = false) :
    executeTyped (.plain .singleStep) machine =
      if ({ machine with printsOnStop := machine.isTracing } : Machine).singleStep.isBusy then
        ({ machine with printsOnStop := machine.isTracing } : Machine).singleStep
      else ({ machine with printsOnStop := machine.isTracing } : Machine).singleStep.stop := by
  rw [executeTyped, stopped, executing]
  rfl

theorem enter_singleStep_eq (idle : machine.IsIdle) (executing : machine.isProgramming = false)
    (noTask : machine.started.turn.task = none)
    (noSample : ∀ error, (step.on machine.started).1 = .error error → error.kind ≠ .run) :
    machine.enter "SST" = (true, ({ machine.started.turn with isRunning := false } : Machine).stop) := by
  have turns : machine.started.turn = performing step machine.started := by
    rw [turn, show machine.started.task = none from idle.noTask]
  have entered : machine.enter "SST" = (true, machine.enterInstruction (.plain .singleStep)) :=
    @enter_name _ idle ⟨false, 23⟩ .singleStep rfl
  rw [turns] at noTask ⊢
  have stepped : ({ machine with printsOnStop := machine.isTracing } : Machine).singleStep =
      { performing step machine.started with isRunning := false } := singleStep_eq _ noTask noSample
  rw [entered, enterInstruction, executeTyped_singleStep idle.stopped executing, stepped,
    if_neg (by simp [executing]), if_neg (by simp [isBusy, noTask])]

/-- A single step runs one line, unless it leaves work or calls the function of a search. -/
theorem IsReachable.enter_singleStep (reachable : machine.IsReachable) (idle : machine.IsIdle)
    (executing : machine.isProgramming = false) (noTask : machine.started.turn.task = none)
    (noSample : ∀ error, (step.on machine.started).1 = .error error → error.kind ≠ .run) :
    (machine.enter "SST").1 = true ∧ machine.RunsOneLine (machine.enter "SST").2 := by
  rw [enter_singleStep_eq idle executing noTask noSample]
  obtain ⟨printsOnStop, calls, printing, same, short, -⟩ :=
    ({ machine.started.turn with isRunning := false } : Machine).exists_stop_eq
  rw [same]
  refine ⟨rfl, ⟨printsOnStop, calls, printing, ?_, short⟩, fun turns => execute_of_not_busy rfl turns,
    fun error left raises genuine heeds notTaken => ?_⟩
  · rw [← noTask]
  · obtain ⟨fetched, -, fails⟩ := @exists_stopsAtFailure machine.started _ _ reachable.hasPrograms.own
      reachable.depth_le rfl idle.noTask raises genuine heeds notTaken
    obtain ⟨_, -, errors⟩ := fails.stops.reported
    have shown : error ∈ machine.started.turn.errors := by simp [errors]
    exact ⟨List.mem_append_left _ shown, fetched, fails.place⟩

/-- Go to a program, and step over its label. -/
def steppingInputs : List Input :=
  ["PRGM", "LBL \"A\"", "XEQ \"B\"", "RTN", "LBL \"B\"", "5", "PRGM", "GTO \"A\"", "SST"].map .enter

/-- A machine in front of a line that calls a subroutine. -/
def beforeStep : Machine := steppingInputs.foldl after (initial default)

/-- The step goes into the subroutine. -/
theorem enter_singleStep_beforeStep :
    (beforeStep.address = some 4 ∧ (beforeStep.enter "SST").2.address = some 10) ∧
      (beforeStep.enter "SST").1 = true ∧ beforeStep.RunsOneLine (beforeStep.enter "SST").2 := by
  obtain ⟨places, ⟨stopped, noTask, noPending, noPrompt, noEntry⟩, executing, noWork, performed⟩ :
      (beforeStep.address = some 4 ∧ (beforeStep.enter "SST").2.address = some 10) ∧
        (beforeStep.isRunning = false ∧ beforeStep.task = none ∧ beforeStep.pending = none ∧
          beforeStep.prompt = none ∧ beforeStep.entry = none) ∧
        beforeStep.isProgramming = false ∧ beforeStep.started.turn.task = none ∧
        (step.on beforeStep.started).1 = .ok () := by decide +kernel
  have reachable : beforeStep.IsReachable := (IsReachable.initial default).afterAll steppingInputs
  refine ⟨places, reachable.enter_singleStep ⟨stopped, noTask, noPending, noPrompt, noEntry⟩ executing noWork ?_⟩
  intro error raised
  rw [performed] at raised
  cases raised

end Machine

end Keystroke
