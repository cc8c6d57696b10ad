import Mathlib
import Keystroke.Integrator
import Keystroke.Solver

/-!
# Steps of a search

A search that is in some stage goes on: it asks for a sample or finishes, and still solves the same
function for the same variable. An integration that has begun is between samples after any step.
-/

namespace Keystroke

namespace Solver

/-- What a search is for: the function and its variable, and where a program goes on with the result. -/
structure Purpose where
  function : List UInt8
  variableName : List UInt8
  keepsRunning : Bool
  program : Nat
  address : Option Nat

variable (solver : Solver)

/-- The purpose of a search. -/
def purpose : Purpose where
  function := solver.function
  variableName := solver.variableName
  keepsRunning := solver.keepsRunning
  program := solver.program
  address := solver.address

/-- A step of a search, which is not idle. -/
structure Continues (purpose : Purpose) (step : Step × Solver) : Prop where
  asks : step.1 ≠ .idle
  purpose : step.2.purpose = purpose

theorem continues_retry : Continues solver.purpose solver.retry := by
  unfold retry
  dsimp only
  split_ifs <;> exact ⟨Step.noConfusion, rfl⟩

theorem continues_retryOr (verdict : Verdict) :
    Continues solver.purpose (solver.retryOr verdict) := by
  unfold retryOr
  split_ifs
  · exact solver.continues_retry
  · exact ⟨Step.noConfusion, rfl⟩

theorem continues_widen : Continues solver.purpose solver.widen := by
  unfold widen
  dsimp only
  split_ifs
  · exact solver.continues_retryOr _
  · exact ⟨Step.noConfusion, rfl⟩
  · exact solver.continues_retryOr _
  · exact ⟨Step.noConfusion, rfl⟩

theorem continues_bracket : Continues solver.purpose solver.bracket := by
  unfold bracket
  dsimp only
  split_ifs
  · exact ⟨Step.noConfusion, rfl⟩
  · exact ⟨Step.noConfusion, rfl⟩

theorem continues_fromSecant (slope : Binary64) :
    Continues solver.purpose (solver.fromSecant slope) := by
  unfold fromSecant
  split_ifs
  · exact solver.continues_retryOr _
  · exact ⟨Step.noConfusion, rfl⟩
  · exact ⟨Step.noConfusion, rfl⟩
  · exact ⟨Step.noConfusion, rfl⟩
  · exact ⟨Step.noConfusion, rfl⟩
  · exact ⟨Step.noConfusion, rfl⟩

theorem continues_secantStep : Continues solver.purpose solver.secantStep := by
  have moved (probe slope : Binary64) :
      Continues solver.purpose (fromSecant { solver with probe } slope) :=
    continues_fromSecant { solver with probe } slope
  unfold secantStep
  dsimp only
  split_ifs
  · exact ⟨Step.noConfusion, rfl⟩
  · exact solver.continues_bracket
  · exact ⟨Step.noConfusion, rfl⟩
  · exact ⟨Step.noConfusion, rfl⟩
  · exact moved _ _
  · exact moved _ _

theorem continues_orderedSecantStep : Continues solver.purpose solver.orderedSecantStep := by
  unfold orderedSecantStep
  split_ifs
  · exact solver.exchangeEnds.continues_secantStep
  · exact solver.continues_secantStep

theorem continues_approach : Continues solver.purpose solver.approach := by
  have closer (bound : Binary64) : Continues solver.purpose
      (if ((bound + solver.probe) / 2).equals bound then
        (.finish .extremum, { solver with probe := (bound + solver.probe) / 2 })
      else (.sample probePoint .secant, { solver with probe := (bound + solver.probe) / 2 })) := by
    split_ifs
    · exact ⟨Step.noConfusion, rfl⟩
    · exact ⟨Step.noConfusion, rfl⟩
  unfold approach
  dsimp only
  split
  · exact closer solver.upper
  split
  · exact closer solver.lower
  · unfold approachBetween
    dsimp only
    split_ifs <;> exact ⟨Step.noConfusion, rfl⟩

theorem continues_takeSecant (isHalving : Bool) (result : Binary64) :
    Continues solver.purpose (solver.takeSecant isHalving result) := by
  have halves : Continues solver.purpose solver.halve := ⟨Step.noConfusion, rfl⟩
  have lower := (solver.probeToLower result).continues_orderedSecantStep
  have upper := (solver.probeToUpper result).continues_orderedSecantStep
  unfold takeSecant
  dsimp only
  split_ifs <;> assumption

theorem continues_takeMiddle (result : Binary64) :
    Continues solver.purpose (solver.takeMiddle result) := by
  unfold takeMiddle
  dsimp only
  split_ifs <;> exact ⟨Step.noConfusion, rfl⟩

theorem continues_takeRidders (result : Binary64) :
    Continues solver.purpose (solver.takeRidders result) := by
  have narrowed (lower upper lowerResult upperResult : Binary64) :
      Continues solver.purpose
        (bracket { solver with lower, upper, lowerResult, upperResult }) :=
    continues_bracket { solver with lower, upper, lowerResult, upperResult }
  unfold takeRidders
  split
  · split <;> exact narrowed _ _ _ _
  split
  · exact (solver.probeToUpper result).continues_bracket
  · exact (solver.probeToLower result).continues_bracket

theorem continues_takeEnd (result : Binary64) :
    Continues solver.purpose (solver.takeEnd result) := by
  have goesOn (next : Solver) (same : next.purpose = solver.purpose) :
      Continues solver.purpose
        (if next.lowerResult.equals next.upperResult then next.widen else next.secantStep) := by
    rw [← same]
    split
    · exact next.continues_widen
    · exact next.continues_secantStep
  exact goesOn _ (by split <;> rfl)

theorem continues_moveFailedEnd : Continues solver.purpose solver.moveFailedEnd := by
  unfold moveFailedEnd
  dsimp only
  split_ifs
  · exact ⟨Step.noConfusion, rfl⟩
  · exact ⟨Step.noConfusion, rfl⟩
  · exact ⟨Step.noConfusion, rfl⟩
  · exact ⟨Step.noConfusion, rfl⟩

/-- A sample is only idle if there is no stage with the number. -/
theorem continues_advance {stage : Stage} (inStage : Stage.ofCode? solver.stage = some stage)
    (result : Option Binary64) : Continues solver.purpose (solver.advance result) := by
  unfold advance
  rw [inStage]
  cases stage <;> cases result <;> dsimp only
  case firstGuess.none | firstGuess.some => exact ⟨Step.noConfusion, rfl⟩
  case secondGuess.none => exact ⟨Step.noConfusion, rfl⟩
  case secondGuess.some =>
    split_ifs
    · exact ⟨Step.noConfusion, rfl⟩
    · exact ⟨Step.noConfusion, rfl⟩
  case ends.none => exact solver.continues_moveFailedEnd
  case ends.some => exact solver.continues_takeEnd _
  case secant.none | halving.none => exact solver.continues_approach
  case secant.some | halving.some => exact solver.continues_takeSecant _ _
  case middle.none | ridders.none => exact ⟨Step.noConfusion, rfl⟩
  case middle.some => exact solver.continues_takeMiddle _
  case ridders.some => exact solver.continues_takeRidders _

@[simp]
theorem purpose_advance (result : Option Binary64) :
    (solver.advance result).2.purpose = solver.purpose := by
  cases inStage : Stage.ofCode? solver.stage with
  | none =>
      unfold advance
      rw [inStage]
  | some stage => exact (solver.continues_advance inStage result).purpose

@[simp]
theorem variableName_advance (result : Option Binary64) :
    (solver.advance result).2.variableName = solver.variableName :=
  congrArg Purpose.variableName (solver.purpose_advance result)

@[simp]
theorem variableName_start (first second : Binary64) :
    (solver.start first second).variableName = solver.variableName := by
  unfold start
  dsimp only
  split_ifs <;> rfl

@[simp]
theorem purpose_answer : solver.answer.2.purpose = solver.purpose := by
  unfold answer
  dsimp only
  split_ifs <;> rfl

@[simp]
theorem variableName_answer : solver.answer.2.variableName = solver.variableName :=
  congrArg Purpose.variableName solver.purpose_answer

/-! ## Numbers of stages -/

/-- The number of a stage. -/
def IsStage (code : UInt8) : Prop := 1 ≤ code ∧ code ≤ 7

theorem isStage_code (stage : Stage) : IsStage stage.code := by
  cases stage <;> exact ⟨by decide, by decide⟩

theorem IsStage.exists_stage {code : UInt8} (isStage : IsStage code) :
    ∃ stage, Stage.ofCode? code = some stage := by
  obtain ⟨low, high⟩ := isStage
  rw [UInt8.le_iff_toNat_le] at low high
  rw [Stage.ofCode?]
  generalize code.toNat = number at low high
  change 1 ≤ number at low
  change number ≤ 7 at high
  interval_cases number <;> exact ⟨_, rfl⟩

end Solver

namespace Integrator

/-- The number of the stage between samples. -/
def betweenSamples : UInt8 := 2

/-- A step of an integration over a variable, which is between samples. -/
structure Continues (name : List UInt8) (step : Step × Integrator) : Prop where
  asks : step.1 ≠ .idle
  variableName : step.2.variableName = name
  stage : step.2.stage = betweenSamples

variable {integrator : Integrator} {name : List UInt8}

theorem continues_sample (named : integrator.variableName = name)
    (between : integrator.stage = betweenSamples) : Continues name integrator.sample :=
  ⟨Step.noConfusion, named, between⟩

theorem continues_nextPass (named : integrator.variableName = name)
    (between : integrator.stage = betweenSamples) : Continues name integrator.nextPass := by
  unfold nextPass
  dsimp only
  split
  · exact ⟨Step.noConfusion, named, between⟩
  · exact continues_sample named between

theorem continues_endPass (named : integrator.variableName = name)
    (between : integrator.stage = betweenSamples) : Continues name integrator.endPass := by
  unfold endPass
  dsimp only
  split_ifs
  · exact ⟨Step.noConfusion, named, between⟩
  · exact continues_nextPass named between
  · exact continues_nextPass named between

variable (integrator)

/-- A sample is only idle if no integration has begun. -/
theorem continues_advance (begun : integrator.stage = 1 ∨ integrator.stage = betweenSamples)
    (result : Option Binary64) : Continues integrator.variableName (integrator.advance result) := by
  have goesOn (next : Integrator) (named : next.variableName = integrator.variableName)
      (between : next.stage = betweenSamples) : Continues integrator.variableName
        (if next.taken < next.wanted then next.sample else next.endPass) := by
    split
    · exact continues_sample named between
    · exact continues_endPass named between
  unfold advance
  rcases begun with first | between
  · rw [first]
    refine continues_sample ?_ ?_ <;> rfl
  · rw [between]
    exact goesOn _ rfl rfl

@[simp]
theorem variableName_advance (result : Option Binary64) :
    (integrator.advance result).2.variableName = integrator.variableName := by
  by_cases begun : integrator.stage = 1 ∨ integrator.stage = betweenSamples
  · exact (integrator.continues_advance begun result).variableName
  · rw [not_or] at begun
    unfold advance
    split
    · next first => exact absurd (UInt8.toNat_inj.mp first) begun.1
    · next between => exact absurd (UInt8.toNat_inj.mp between) begun.2
    · rfl

end Integrator

end Keystroke
