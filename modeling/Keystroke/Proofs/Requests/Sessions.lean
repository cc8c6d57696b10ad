import Mathlib
import Keystroke.Proofs.Inputs

/-!
# Requests in a session

Only the host requests a machine to stop. A machine that stops for a request, whatever it is doing by then,
was requested to while it was busy, and it has not stopped for this request before. The request may be older
than the run it stops: the end of a run does not take it back.
-/

namespace Keystroke

namespace Machine

variable {machine : Machine}

/-! ## Slices -/

/-- Whether the machine stops for a request in so many turns of a slice. -/
def stopsWithin : Nat → Machine → Bool
  | 0, _ => false
  | turns + 1, machine =>
    machine.isBusy &&
      (machine.isInterrupted ||
        (!machine.awaitsKey && !machine.turn.hasNews && stopsWithin turns machine.turn))

/-- Whether a slice of so many turns ends because the host has requested the machine to stop. -/
def stopsOnRequest (turns : Nat) (machine : Machine) : Bool :=
  !machine.hasNews && stopsWithin turns machine

theorem IsCalm.turn (calm : machine.IsCalm) : machine.turn.IsCalm :=
  ((isLasting_evolves machine).turn (.refl true machine)).isCalm calm

/-- No turn makes a request, so only the first one of a slice can find one. -/
theorem stopsWithin_of_isCalm (calm : machine.IsCalm) (turns : Nat) : stopsWithin turns machine = false := by
  induction turns generalizing machine with
  | zero => rfl
  | succ turns ih =>
      have none : machine.isInterrupted = false := calm
      simp [stopsWithin, none, ih calm.turn]

theorem IsCalm.takeNews (calm : machine.IsCalm) : machine.takeNews.2.IsCalm :=
  ((isLasting_evolves machine).takeNews (.refl true machine)).isCalm calm

theorem isCalm_stopInterrupted (machine : Machine) : machine.stopInterrupted.IsCalm := by
  have stopped := (isLasting_evolves _).stop (.refl true { machine with isInterrupted := false })
  exact stopped.isCalm rfl

theorem isInterrupted_of_stopsWithin {turns : Nat} (stops : stopsWithin turns machine = true) :
    machine.isInterrupted = true := by
  by_contra calm
  rw [stopsWithin_of_isCalm (Bool.eq_false_iff.mpr calm)] at stops
  cases stops

/-- A slice that ends for a request executes nothing. -/
theorem work_of_stopsWithin {turns : Nat} (stops : stopsWithin turns machine = true) :
    Machine.work turns machine = machine.stopInterrupted := by
  cases turns with
  | zero => cases stops
  | succ turns =>
      have requested := isInterrupted_of_stopsWithin stops
      have busy : machine.isBusy = true := by
        rw [stopsWithin, Bool.and_eq_true] at stops
        exact stops.1
      simp [Machine.work, busy, requested]

/-- The host is told that the machine was interrupted, and the request is taken back. -/
theorem execute_of_stopsOnRequest {turns : Nat} (stops : stopsOnRequest turns machine = true) :
    (∃ errors, (machine.execute turns).1 = .errors (errors ++ [.plain .interrupted])) ∧
      (machine.execute turns).2.IsCalm := by
  rw [stopsOnRequest, Bool.and_eq_true, Bool.not_eq_true'] at stops
  have worked := work_of_stopsWithin stops.2
  rw [execute, if_neg (by simp [stops.1]), worked]
  refine ⟨⟨({ machine with isInterrupted := false } : Machine).stop.errors, ?_⟩, ?_⟩
  · rw [takeNews, if_pos (by simp [stopInterrupted, addError])]
    rfl
  · exact (isCalm_stopInterrupted machine).takeNews

/-! ## Sessions -/

/-- The machine after several inputs. -/
def afterAll (machine : Machine) (inputs : List Input) : Machine := inputs.foldl after machine

theorem afterAll_append (inputs later : List Input) :
    machine.afterAll (inputs ++ later) = (machine.afterAll inputs).afterAll later :=
  List.foldl_append

theorem IsCalm.after (calm : machine.IsCalm) {input : Input} (silent : input ≠ .interrupt) :
    (machine.after input).IsCalm :=
  (evolves_after machine silent).isCalm calm

/-- While it was busy, the machine was requested to stop, and no slice since then has stopped for a
request. -/
def HasOpenRequest (machine : Machine) (inputs : List Input) : Prop :=
  ∃ earlier later, inputs = earlier ++ .interrupt :: later ∧ (machine.afterAll earlier).isBusy = true ∧
    ∀ between turns rest, later = between ++ .execute turns :: rest →
      stopsOnRequest turns (machine.afterAll (earlier ++ .interrupt :: between)) = false

/-- A request that no slice has stopped for stays open, whatever else the host does. -/
theorem HasOpenRequest.append {inputs : List Input} (requested : machine.HasOpenRequest inputs) (input : Input)
    (unanswered : ∀ turns, input = .execute turns →
      stopsOnRequest turns (machine.afterAll inputs) = false) :
    machine.HasOpenRequest (inputs ++ [input]) := by
  obtain ⟨earlier, later, rfl, busy, unansweredBefore⟩ := requested
  refine ⟨earlier, later ++ [input], by simp, busy, fun between turns rest split => ?_⟩
  rcases rest.eq_nil_or_concat with rfl | ⟨front, last, rfl⟩
  · obtain ⟨rfl, same⟩ := List.append_inj' split rfl
    exact unanswered turns (List.singleton_inj.mp same)
  · have parts : later ++ [input] = (between ++ .execute turns :: front) ++ [last] := by
      rw [split, List.concat_eq_append, List.append_assoc, List.cons_append]
    exact unansweredBefore between turns front (List.append_inj' parts rfl).1

theorem hasOpenRequest_of_isInterrupted (calm : machine.IsCalm) {inputs : List Input}
    (requested : (machine.afterAll inputs).isInterrupted = true) : machine.HasOpenRequest inputs := by
  induction inputs using List.reverseRecOn with
  | nil =>
      have none : machine.isInterrupted = false := calm
      rw [afterAll, List.foldl_nil, none] at requested
      cases requested
  | append_singleton inputs input ih =>
      have last : machine.afterAll (inputs ++ [input]) = (machine.afterAll inputs).after input :=
        afterAll_append inputs [input]
      rw [last] at requested
      have notCalm : ¬ ((machine.afterAll inputs).after input).IsCalm := by simp [IsCalm, requested]
      by_cases isNew : input = .interrupt ∧ (machine.afterAll inputs).isBusy = true
      · obtain ⟨rfl, busy⟩ := isNew
        exact ⟨inputs, [], rfl, busy, fun between turns rest split => by simp at split⟩
      · have requestedBefore : (machine.afterAll inputs).isInterrupted = true := by
          by_contra calmBefore
          have calmBefore : (machine.afterAll inputs).IsCalm := Bool.eq_false_iff.mpr calmBefore
          by_cases silent : input = .interrupt
          · subst silent
            have idle : ¬ (machine.afterAll inputs).isBusy = true := fun busy => isNew ⟨rfl, busy⟩
            rw [after, Machine.interrupt, if_neg idle] at notCalm
            exact notCalm calmBefore
          · exact notCalm (calmBefore.after silent)
        refine (ih requestedBefore).append input fun turns isSlice => ?_
        subst isSlice
        by_contra stops
        exact notCalm (execute_of_stopsOnRequest (by simpa using stops)).2

/-- A machine that a slice stops for a request was requested to stop while it was busy, maybe with an
earlier run, and it has not stopped for this request before. The slice executes nothing, and the host is
told that the machine was interrupted. -/
theorem hasOpenRequest_of_stopsOnRequest (calm : machine.IsCalm) (inputs : List Input) {turns : Nat}
    (stops : stopsOnRequest turns (machine.afterAll inputs) = true) :
    machine.HasOpenRequest inputs ∧
      Machine.work turns (machine.afterAll inputs) = (machine.afterAll inputs).stopInterrupted ∧
      ∃ errors, ((machine.afterAll inputs).execute turns).1 = .errors (errors ++ [.plain .interrupted]) := by
  have within : stopsWithin turns (machine.afterAll inputs) = true := by
    rw [stopsOnRequest, Bool.and_eq_true] at stops
    exact stops.2
  have requested := isInterrupted_of_stopsWithin within
  exact ⟨hasOpenRequest_of_isInterrupted calm requested, work_of_stopsWithin within,
    (execute_of_stopsOnRequest stops).1⟩

/-- A program of one line, at its start. -/
def runningEnter : Machine :=
  { (insertLine (.plain .enter)).attempt (initial default) with address := none, isRunning := true }

/-- A request while the program runs, and the key that stops it and starts it again. -/
def stoppedAndStarted : List Input := [.interrupt, .press ⟨false, Key.runStop⟩, .press ⟨false, Key.runStop⟩]

/-- The second run stops for a request that was made during the first one. -/
theorem hasOpenRequest_stoppedAndStarted :
    (runningEnter.IsCalm ∧ stopsOnRequest 1 (runningEnter.afterAll stoppedAndStarted) = true ∧
      (runningEnter.afterAll (stoppedAndStarted.take 2)).isBusy = false) ∧
    runningEnter.HasOpenRequest stoppedAndStarted ∧
      ∃ errors, ((runningEnter.afterAll stoppedAndStarted).execute 1).1 =
        .errors (errors ++ [.plain .interrupted]) := by
  have calm : runningEnter.IsCalm := by
    show runningEnter.isInterrupted = false
    decide +kernel
  have stops : stopsOnRequest 1 (runningEnter.afterAll stoppedAndStarted) = true := by decide +kernel
  have stopped : (runningEnter.afterAll (stoppedAndStarted.take 2)).isBusy = false := by decide +kernel
  obtain ⟨requested, -, told⟩ := hasOpenRequest_of_stopsOnRequest calm stoppedAndStarted stops
  exact ⟨⟨calm, stops, stopped⟩, requested, told⟩

end Machine

end Keystroke
