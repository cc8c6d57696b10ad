import Keystroke.Binary64

/-!
# The integrator

Integrates a function of one variable by Romberg's method after a substitution that never samples
the ends of the interval. Every pass doubles the samples; from the fourth on the last five passes are
extrapolated. The integrand is a program, so the integrator asks for one sample at a time.
-/

namespace Keystroke

/-- What the integrator wants next. -/
inductive Integrator.Step where
  /-- The integrand at the point `sampled`. -/
  | sample
  | finish
  /-- No integration is in progress. -/
  | idle
deriving DecidableEq, Repr, Inhabited

/-- The state of the integrator. -/
structure Integrator where
  /-- The integrand chosen for the next integration. -/
  chosenFunction : List UInt8 := []
  /-- The integrand of this integration. -/
  function : List UInt8 := []
  variableName : List UInt8 := []
  /-- Whether a program goes on with the result. -/
  keepsRunning : Bool := false
  /-- The program that started the integration, and where it goes on. -/
  program : Nat := 0
  address : Option Nat := none
  /-- Zero while idle, one before the first sample, two between samples. -/
  stage : UInt8 := 0
  lowerLimit : Binary64 := 0
  upperLimit : Binary64 := 0
  /-- How far two results may differ, as a fraction of the result. -/
  accuracy : Binary64 := 0
  origin : Binary64 := 0
  width : Binary64 := 0
  /-- How far the last two results differ. -/
  difference : Binary64 := 0
  pass : Nat := 0
  /-- The samples taken in this pass. -/
  taken : Nat := 0
  /-- The sums in the table. -/
  filled : Nat := 0
  stepSize : Binary64 := 0
  sum : Binary64 := 0
  column : Vector Binary64 5 := Vector.replicate 5 0
  table : Vector Binary64 6 := Vector.replicate 6 0
  /-- The samples that this pass takes. -/
  wanted : Nat := 0
  parameter : Binary64 := 0
  weight : Binary64 := 0
  sampled : Binary64 := 0
  integral : Binary64 := 0
  previousResult : Binary64 := 0
deriving DecidableEq

namespace Integrator

instance : Inhabited Integrator := ⟨{}⟩

/-- The passes that are extrapolated together. -/
def extrapolated : Nat := 5

/-- The pass at which the integrator gives up. -/
def maximalPasses : Nat := 20

variable (integrator : Integrator)

/-- The result so far. -/
def result : Binary64 := integrator.sum * integrator.width * 0.75

/-- Ask for the sample at the present parameter. -/
def sample : Step × Integrator :=
  let p := integrator.parameter
  let weight := 1 - p * p
  let place := p + weight * p / 2
  (.sample,
    { integrator with
      weight
      sampled := (place * integrator.width + integrator.width) / 2 + integrator.origin })

/-- Begin a pass with its first sample. -/
def beginPass : Step × Integrator :=
  sample { integrator with parameter := integrator.stepSize / 2 - 1, sum := 0, taken := 0 }

/-- One column of the extrapolation from the one before, in its first places. -/
def nextColumn (factor : Binary64) (places : Nat) (column : Vector Binary64 5) :
    Vector Binary64 5 :=
  Vector.ofFn fun place : Fin 5 =>
    if place.val < places then
      (column.toArray.getD (place.val + 1) 0 - column.get place * factor * 4) / (1 - factor)
    else column.get place

/-- Extrapolate the first five sums of the table. -/
def extrapolate : Integrator :=
  let start : Vector Binary64 5 := Vector.ofFn fun place : Fin 5 =>
    integrator.table.toArray.getD place.val 0
  let (_, column, sum) := [1, 2, 3, 4].foldl
    (fun (factor, column, sum) m =>
      let factor := factor / 4
      let column := nextColumn factor (extrapolated - m) column
      (factor, column, sum + column.toArray.getD (extrapolated - 1 - m) 0 * factor))
    ((1 : Binary64), start, integrator.table.toArray.getD (extrapolated - 1) 0)
  { integrator with column, sum }

/-- The table without its first sum, so that there is room for one more. -/
def shiftTable (table : Vector Binary64 6) : Vector Binary64 6 :=
  Vector.ofFn fun place : Fin 6 =>
    if place.val < extrapolated - 1 then table.toArray.getD (place.val + 1) 0 else table.get place

/-- Go on with twice as many samples, unless there have been too many passes. -/
def nextPass : Step × Integrator :=
  let next : Integrator :=
    { integrator with
      wanted := integrator.wanted * 2
      stepSize := integrator.stepSize / 2
      pass := integrator.pass + 1 }
  if maximalPasses ≤ next.pass then (.finish, next) else next.beginPass

/-- All samples of a pass are there. -/
def endPass : Step × Integrator :=
  let integral := (integrator.integral + integrator.sum * integrator.stepSize) / 2
  let summed : Integrator :=
    { integrator with
      integral
      table := integrator.table.setIfInBounds integrator.filled integral
      filled := integrator.filled + 1 }
  if extrapolated - 1 ≤ summed.pass then
    let summed := summed.extrapolate
    let result := summed.result
    let compared : Integrator :=
      { summed with
        difference := (summed.previousResult - result).abs
        previousResult := result }
    if compared.difference ≤ compared.accuracy * result.abs then (.finish, compared)
    else
      nextPass
        { compared with table := shiftTable compared.table, filled := extrapolated - 1 }
  else summed.nextPass

/-- Go on after a sample; one that failed counts as zero. -/
def advance (result : Option Binary64) : Step × Integrator :=
  match integrator.stage.toNat with
  | 1 => beginPass { integrator with stage := 2 }
  | 2 =>
    let sum :=
      match result with
      | some result => integrator.sum + integrator.weight * result
      | none => integrator.sum
    let next : Integrator :=
      { integrator with
        sum
        parameter := integrator.parameter + integrator.stepSize
        taken := integrator.taken + 1 }
    if next.taken < next.wanted then next.sample else next.endPass
  | _ => (.idle, integrator)

/-- Begin an integration between two limits. -/
def start (lower upper accuracy : Binary64) : Integrator :=
  { integrator with
    lowerLimit := lower, upperLimit := upper, accuracy
    origin := lower, width := upper - lower
    stepSize := 2, integral := 0, wanted := 1, pass := 1, stage := 1
    table := integrator.table.setIfInBounds 0 0
    filled := 1, previousResult := 0 }

end Integrator

end Keystroke
