import Mathlib
import Keystroke.Machine.Execution

/-!
# Working in slices

How a run is cut into slices does not matter. A slice goes along one path of single turns, on which the
host takes all news after each turn. What the slices deliver, and then what still waits, is what came up
on this path: nothing is lost and nothing is told twice.
-/

namespace Keystroke

/-- Whether the host learns something from an event, and not only whether the machine goes on. -/
def Event.isNews : Event → Bool
  | .stopped | .running => false
  | .errors _ | .message _ | .input _ => true

namespace Machine

variable {machine : Machine}

/-! ## The path of single turns -/

/-- What the host has not seen, in the order in which it is taken. -/
def news (machine : Machine) : List Event :=
  (if machine.errors.isEmpty then [] else [.errors machine.errors]) ++
    (machine.message.map Event.message).toList ++ (machine.question.map Event.input).toList

/-- The machine after the host has taken all news. -/
def hushed (machine : Machine) : Machine :=
  { machine with errors := [], message := none, question := none }

/-- A turn, or a stop in place of it; a machine that has nothing to do, or waits for a key, stays as it
is. -/
def advance (machine : Machine) : Machine :=
  if !machine.isBusy then machine
  else if machine.isInterrupted then machine.stopInterrupted
  else if machine.awaitsKey then machine
  else machine.turn

/-- A turn after which the host takes all news. -/
def advanceHushed (machine : Machine) : Machine := machine.advance.hushed

/-- The news that come up in a count of turns, if the host takes all of them after each turn. -/
def raised : Nat → Machine → List Event
  | 0, _ => []
  | turns + 1, machine => machine.advance.news ++ raised turns machine.advanceHushed

theorem raised_add (first second : Nat) (machine : Machine) :
    raised (first + second) machine =
      raised first machine ++ raised second (advanceHushed^[first] machine) := by
  induction first generalizing machine with
  | zero => simp [raised]
  | succ first ih =>
      rw [Nat.succ_add, raised, raised, ih, Function.iterate_succ_apply, List.append_assoc]

/-- What comes up in fewer turns comes up first. -/
theorem raised_mono {fewer more : Nat} (isFewer : fewer ≤ more) (machine : Machine) :
    raised fewer machine <+: raised more machine := by
  obtain ⟨rest, rfl⟩ := Nat.exists_eq_add_of_le isFewer
  rw [raised_add]
  exact List.prefix_append _ _

theorem news_eq_nil (quiet : machine.hasNews = false) : machine.news = [] := by
  simp only [hasNews, Bool.or_eq_false_iff, Bool.not_eq_false', Option.isSome_eq_false_iff,
    Option.isNone_iff_eq_none] at quiet
  simp [news, quiet]

theorem hushed_eq_self (quiet : machine.hasNews = false) : machine.hushed = machine := by
  simp only [hasNews, Bool.or_eq_false_iff, Bool.not_eq_false', Option.isSome_eq_false_iff,
    Option.isNone_iff_eq_none, List.isEmpty_iff] at quiet
  obtain ⟨⟨errors, message⟩, question⟩ := quiet
  cases machine
  simp_all [hushed]

/-- A machine that stays as it is has reached the end of its path. -/
theorem path_of_still (still : machine.advance = machine) (quiet : machine.hasNews = false)
    (turns : Nat) : raised turns machine = [] ∧ advanceHushed^[turns] machine = machine := by
  have fixed : machine.advanceHushed = machine := by
    rw [advanceHushed, still, hushed_eq_self quiet]
  refine ⟨?_, Function.iterate_fixed fixed turns⟩
  induction turns with
  | zero => rfl
  | succ turns ih => rw [raised, still, news_eq_nil quiet, fixed, ih, List.append_nil]

/-! ## One slice -/

/-- The work of a slice is a part of the path: all the turns it has, unless news end it early. -/
theorem exists_path_of_work (quiet : machine.hasNews = false) (turns : Nat) :
    ∃ used ≤ turns,
      raised used machine = (work turns machine).news ∧
      advanceHushed^[used] machine = (work turns machine).hushed ∧
      ((work turns machine).hasNews = false → used = turns) := by
  induction turns generalizing machine with
  | zero => exact ⟨0, le_rfl, (news_eq_nil quiet).symm, (hushed_eq_self quiet).symm, fun _ => rfl⟩
  | succ turns ih =>
      have stays (still : machine.advance = machine) (same : work (turns + 1) machine = machine) :
          ∃ used ≤ turns + 1,
            raised used machine = (work (turns + 1) machine).news ∧
            advanceHushed^[used] machine = (work (turns + 1) machine).hushed ∧
            ((work (turns + 1) machine).hasNews = false → used = turns + 1) := by
        obtain ⟨nothing, fixed⟩ := path_of_still still quiet (turns + 1)
        exact ⟨turns + 1, le_rfl, by rw [nothing, same, news_eq_nil quiet],
          by rw [fixed, same, hushed_eq_self quiet], fun _ => rfl⟩
      -- The early ends of a slice, in the order in which the work looks for them.
      by_cases idle : machine.isBusy = false
      · exact stays (by simp [advance, idle]) (by simp [work, idle])
      rw [Bool.not_eq_false] at idle
      by_cases interrupted : machine.isInterrupted = true
      · have stops : work (turns + 1) machine = machine.advance := by
          simp [work, advance, idle, interrupted]
        have hasError : machine.advance.hasNews = true := by
          simp [advance, idle, interrupted, stopInterrupted, addError, hasNews]
        refine ⟨1, by omega, ?_, by rw [stops]; rfl, fun quietLeft => ?_⟩
        · rw [stops, raised, raised, List.append_nil]
        · rw [stops, hasError] at quietLeft
          contradiction
      by_cases awaits : machine.awaitsKey = true
      · exact stays (by simp [advance, idle, interrupted, awaits])
          (by simp [work, idle, interrupted, awaits])
      have turned : machine.advance = machine.turn := by simp [advance, idle, interrupted, awaits]
      by_cases noisy : machine.turn.hasNews = true
      · have ends : work (turns + 1) machine = machine.advance := by
          simp [work, advance, idle, interrupted, awaits, noisy]
        refine ⟨1, by omega, ?_, by rw [ends]; rfl, fun quietLeft => ?_⟩
        · rw [ends, raised, raised, List.append_nil]
        · rw [ends, turned, noisy] at quietLeft
          contradiction
      · rw [Bool.not_eq_true] at noisy
        have goesOn : work (turns + 1) machine = work turns machine.turn := by
          simp [work, idle, interrupted, awaits, noisy]
        have next : machine.advanceHushed = machine.turn := by
          rw [advanceHushed, turned, hushed_eq_self noisy]
        obtain ⟨used, isWithin, news, reached, all⟩ := ih noisy
        refine ⟨used + 1, by omega, ?_, ?_, fun quietLeft => ?_⟩
        · rw [raised, turned, news_eq_nil noisy, next, news, goesOn, List.nil_append]
        · rw [Function.iterate_succ_apply, next, reached, goesOn]
        · rw [goesOn] at quietLeft
          rw [all quietLeft]

/-- Taking news delivers the first of them and leaves the others. -/
theorem news_takeNews (machine : Machine) :
    machine.news = [machine.takeNews.1].filter Event.isNews ++ machine.takeNews.2.news ∧
      machine.takeNews.2.hushed = machine.hushed ∧
      (machine.takeNews.1.isNews = false → machine.hasNews = false) := by
  by_cases quiet : machine.hasNews = false
  · have left : machine.takeNews = (if machine.isBusy then .running else .stopped, machine) := by
      simp only [hasNews, Bool.or_eq_false_iff, Bool.not_eq_false', Option.isSome_eq_false_iff,
        Option.isNone_iff_eq_none] at quiet
      simp [takeNews, quiet]
    have silent : (if machine.isBusy then Event.running else Event.stopped).isNews = false := by
      split <;> rfl
    simp [left, silent, quiet]
  · rcases errors : machine.errors with _ | ⟨error, more⟩
    · rcases message : machine.message with _ | text
      · rcases question : machine.question with _ | asked
        · simp [hasNews, errors, message, question] at quiet
        · simp [takeNews, news, errors, message, question, List.filter_cons, Event.isNews, hushed]
      · simp [takeNews, news, errors, message, List.filter_cons, Event.isNews, hushed]
    · simp [takeNews, news, errors, List.filter_cons, Event.isNews, hushed]

/-- What a slice delivers, and then what still waits, is what waited before it and then what came up on
the path. A slice that delivers nothing has used all its turns. -/
theorem exists_path_of_execute (machine : Machine) (turns : Nat) :
    ∃ used ≤ turns,
      [(machine.execute turns).1].filter Event.isNews ++ (machine.execute turns).2.news =
        machine.news ++ raised used machine.hushed ∧
      (machine.execute turns).2.hushed = advanceHushed^[used] machine.hushed ∧
      ((machine.execute turns).1.isNews = false → used = turns) := by
  by_cases noisy : machine.hasNews = true
  · obtain ⟨delivered, same, silent⟩ := machine.news_takeNews
    have taken : machine.execute turns = machine.takeNews := by simp [execute, noisy]
    rw [taken]
    refine ⟨0, Nat.zero_le _, by rw [raised, List.append_nil, delivered], same, fun quiet => ?_⟩
    rw [silent quiet] at noisy
    contradiction
  · rw [Bool.not_eq_true] at noisy
    obtain ⟨used, isWithin, news, reached, all⟩ := exists_path_of_work noisy turns
    obtain ⟨delivered, same, silent⟩ := (work turns machine).news_takeNews
    have worked : machine.execute turns = (work turns machine).takeNews := by simp [execute, noisy]
    rw [worked, hushed_eq_self noisy]
    exact ⟨used, isWithin, by rw [← delivered, news_eq_nil noisy, List.nil_append, news],
      by rw [same, reached], fun quiet => all (silent quiet)⟩

/-! ## Cutting a slice in two -/

/-- Work that no news have ended goes on where it was. -/
theorem work_add (first second : Nat) {machine : Machine}
    (quiet : (work first machine).hasNews = false) :
    work second (work first machine) = work (first + second) machine := by
  induction first generalizing machine with
  | zero => rw [Nat.zero_add, work]
  | succ first ih =>
      -- A machine that stays as it is does so in each part and in the whole.
      have stays (turns : Nat)
          (still : machine.isBusy = false ∨ machine.isInterrupted = false ∧ machine.awaitsKey = true) :
          work turns machine = machine := by
        cases turns with
        | zero => rfl
        | succ turns =>
            obtain idle | ⟨interrupted, awaits⟩ := still
            · simp [work, idle]
            · simp [work, interrupted, awaits]
      by_cases still :
          machine.isBusy = false ∨ machine.isInterrupted = false ∧ machine.awaitsKey = true
      · rw [stays _ still, stays _ still, stays _ still]
      simp only [not_or, Bool.not_eq_false, not_and, Bool.not_eq_true] at still
      obtain ⟨busy, awaits⟩ := still
      rw [Nat.succ_add, work, work]
      rw [work] at quiet
      by_cases interrupted : machine.isInterrupted = true
      · simp [busy, interrupted, stopInterrupted, addError, hasNews] at quiet
      · rw [Bool.not_eq_true] at interrupted
        simp only [busy, interrupted, awaits interrupted, Bool.not_true, Bool.false_eq_true,
          if_false] at quiet ⊢
        by_cases noisy : machine.turn.hasNews = true
        · rw [if_pos noisy, noisy] at quiet
          contradiction
        · rw [if_neg noisy] at quiet
          rw [if_neg noisy, if_neg noisy]
          exact ih quiet

theorem execute_add (first second : Nat) {machine : Machine}
    (runs : (machine.execute first).1 = .running) :
    (machine.execute first).2.execute second = machine.execute (first + second) := by
  by_cases noisy : machine.hasNews = true
  · -- News are never the answer that the machine is running.
    have taken : machine.execute first = machine.takeNews := by simp [execute, noisy]
    have silent := machine.news_takeNews.2.2
    rw [← taken, runs] at silent
    rw [silent rfl] at noisy
    contradiction
  · rw [Bool.not_eq_true] at noisy
    have worked (turns : Nat) : machine.execute turns = (work turns machine).takeNews := by
      simp [execute, noisy]
    rw [worked] at runs
    have quiet : (work first machine).hasNews = false :=
      (work first machine).news_takeNews.2.2 (by rw [runs]; rfl)
    have left : (machine.execute first).2 = work first machine := by
      simp only [hasNews, Bool.or_eq_false_iff, Bool.not_eq_false', Option.isSome_eq_false_iff,
        Option.isNone_iff_eq_none] at quiet
      simp [worked, takeNews, quiet]
    rw [left, worked, ← work_add first second quiet, execute, quiet]
    rfl

/-! ## Any slices -/

/-- Let the machine work for slices, one after the other. Each slice with what the host was told at its
end, and the machine that is left. -/
def executeAll : List Nat → Machine → List (Nat × Event) × Machine
  | [], machine => ([], machine)
  | turns :: slices, machine =>
    let (event, left) := machine.execute turns
    let (told, last) := executeAll slices left
    ((turns, event) :: told, last)

/-- The news among what the host was told, slice by slice. -/
def delivered (told : List (Nat × Event)) : List Event :=
  (told.map Prod.snd).filter Event.isNews

/-- The turns of the slices that have delivered nothing. -/
def silentTurns (told : List (Nat × Event)) : Nat :=
  ((told.filter fun slice => !slice.2.isNews).map Prod.fst).sum

/-- Slices that leave the machine running are as good as a longer one. -/
theorem execute_executeAll {slices : List Nat} {machine : Machine}
    (run : ∀ slice ∈ (executeAll slices machine).1, slice.2 = .running) (last : Nat) :
    (executeAll slices machine).2.execute last = machine.execute (slices.sum + last) := by
  induction slices generalizing machine with
  | nil => rw [executeAll, List.sum_nil, Nat.zero_add]
  | cons turns slices ih =>
      have runs : (machine.execute turns).1 = .running := run _ List.mem_cons_self
      have rest : ∀ slice ∈ (executeAll slices (machine.execute turns).2).1, slice.2 = .running :=
        fun slice member => run slice (List.mem_cons_of_mem _ member)
      rw [executeAll, ih rest, execute_add turns _ runs, List.sum_cons, Nat.add_assoc]

/-- Slices go along the path, and deliver what comes up on it. -/
theorem exists_path_of_executeAll (slices : List Nat) (machine : Machine) :
    ∃ used, silentTurns (executeAll slices machine).1 ≤ used ∧ used ≤ slices.sum ∧
      delivered (executeAll slices machine).1 ++ (executeAll slices machine).2.news =
        machine.news ++ raised used machine.hushed ∧
      (executeAll slices machine).2.hushed = advanceHushed^[used] machine.hushed := by
  induction slices generalizing machine with
  | nil =>
      exact ⟨0, by simp [executeAll, silentTurns], by simp, by simp [executeAll, delivered, raised], rfl⟩
  | cons turns slices ih =>
      obtain ⟨first, isWithin, news, reached, all⟩ := machine.exists_path_of_execute turns
      obtain ⟨rest, silent, isWithinRest, newsRest, reachedRest⟩ := ih (machine.execute turns).2
      refine ⟨first + rest, ?_, by rw [List.sum_cons]; omega, ?_, ?_⟩
      · cases isNews : (machine.execute turns).1.isNews with
        | true =>
            simp only [silentTurns, executeAll, List.filter_cons, isNews, Bool.not_true, Bool.false_eq_true,
              if_false] at silent ⊢
            omega
        | false =>
            have used := all isNews
            simp only [silentTurns, executeAll, List.filter_cons, isNews, Bool.not_false, if_true,
              List.map_cons, List.sum_cons] at silent ⊢
            omega
      · calc
          delivered (executeAll (turns :: slices) machine).1 ++
                (executeAll (turns :: slices) machine).2.news =
              [(machine.execute turns).1].filter Event.isNews ++
                (delivered (executeAll slices (machine.execute turns).2).1 ++
                  (executeAll slices (machine.execute turns).2).2.news) := by
            simp [executeAll, delivered, List.filter_cons]
            split <;> simp
          _ = machine.news ++ raised first machine.hushed ++
                raised rest (advanceHushed^[first] machine.hushed) := by
            rw [newsRest, ← List.append_assoc, news, reached]
          _ = machine.news ++ raised (first + rest) machine.hushed := by
            rw [raised_add, List.append_assoc]
      · rw [executeAll, reachedRest, reached, Nat.add_comm first, Function.iterate_add_apply]

/-- What the host is told along two ways of cutting a run differs only in how far it goes. -/
theorem delivered_prefix (first second : List Nat) (machine : Machine) :
    delivered (executeAll first machine).1 <+: delivered (executeAll second machine).1 ∨
      delivered (executeAll second machine).1 <+: delivered (executeAll first machine).1 := by
  obtain ⟨usedFirst, -, -, newsFirst, -⟩ := exists_path_of_executeAll first machine
  obtain ⟨usedSecond, -, -, newsSecond, -⟩ := exists_path_of_executeAll second machine
  have within {slices : List Nat} {used : Nat}
      (news : delivered (executeAll slices machine).1 ++ (executeAll slices machine).2.news =
        machine.news ++ raised used machine.hushed) (isWithin : used ≤ max usedFirst usedSecond) :
      delivered (executeAll slices machine).1 <+:
        machine.news ++ raised (max usedFirst usedSecond) machine.hushed := by
    refine (news ▸ List.prefix_append _ _ : _ <+: machine.news ++ raised used machine.hushed).trans ?_
    exact (List.prefix_append_right_inj _).mpr (raised_mono isWithin machine.hushed)
  exact List.prefix_or_prefix_of_prefix (within newsFirst (le_max_left _ _))
    (within newsSecond (le_max_right _ _))

/-- Cutting a run into slices does not matter. A slice that leaves the machine running and another one
are as good as one slice of both lengths, and so are any slices before the last one. Whatever the slices
are, they go along one and the same path of single turns, no turn of a slice that delivers nothing is
left out, and the host is told what comes up on the path: nothing is lost, and nothing is told twice. -/
theorem execute_slices (machine : Machine) :
    (∀ first second, (machine.execute first).1 = .running →
      (machine.execute first).2.execute second = machine.execute (first + second)) ∧
    (∀ slices last, (∀ slice ∈ (executeAll slices machine).1, slice.2 = .running) →
      (executeAll slices machine).2.execute last = machine.execute (slices.sum + last)) ∧
    (∀ slices, ∃ used,
      silentTurns (executeAll slices machine).1 ≤ used ∧ used ≤ slices.sum ∧
      delivered (executeAll slices machine).1 ++ (executeAll slices machine).2.news =
        machine.news ++ raised used machine.hushed ∧
      (executeAll slices machine).2.hushed = advanceHushed^[used] machine.hushed) ∧
    ∀ first second,
      delivered (executeAll first machine).1 <+: delivered (executeAll second machine).1 ∨
        delivered (executeAll second machine).1 <+: delivered (executeAll first machine).1 :=
  ⟨fun first second runs => execute_add first second runs,
    fun _ last run => execute_executeAll run last,
    fun slices => exists_path_of_executeAll slices machine,
    fun first second => delivered_prefix first second machine⟩

/-- A program that shows the text register in its second line, at its start. -/
def showingText : Machine :=
  let entered := [Instruction.plain .enter, .plain .viewAlpha].foldl
    (fun machine line => (insertLine line).attempt machine) (initial default)
  { entered with address := none, isRunning := true, alpha := [72, 73] }

/-- The text is shown in the second turn, whether or not the first one is a slice of its own. -/
theorem execute_slices_showingText :
    (∀ slice ∈ (executeAll [1, 0] showingText).1, slice.2 = .running) ∧
      (showingText.execute 1).2.execute 4 = showingText.execute 5 ∧
      (executeAll [1, 0] showingText).2.execute 4 = showingText.execute 5 ∧
      (showingText.execute 5).1 = .message "HI" := by
  have runs : (showingText.execute 1).1 = .running := by decide +kernel
  have run : ∀ slice ∈ (executeAll [1, 0] showingText).1, slice.2 = .running := by decide +kernel
  have shows : (showingText.execute 5).1 = .message "HI" := by decide +kernel
  obtain ⟨cut, cuts, -, -⟩ := execute_slices showingText
  exact ⟨run, cut 1 4 runs, cuts [1, 0] 4 run, shows⟩

end Machine

end Keystroke
