import Keystroke.Binary64

/-!
# The solver

Finds a root of a function of one variable. As long as the function has the same sign at both ends of
the interval, secant steps move it; once the root is bracketed, Ridders' method closes in; where
neither makes progress the interval is halved.

The function is a program, so the solver cannot call it. It is a state machine that asks for one
sample at a time and goes on when the sample has arrived.
-/

namespace Keystroke

/-- How a search for a root ended. -/
inductive Verdict where
  | root
  /-- The function changes sign, but without a root between. -/
  | signReversal
  /-- The function comes close to zero without crossing it. -/
  | extremum
  | badGuesses
  /-- The function has one value everywhere it was sampled. -/
  | constant
deriving DecidableEq, Repr, Inhabited

namespace Verdict

/-- The number of a verdict. -/
def code (verdict : Verdict) : Nat := verdict.ctorIdx

/-- What is said about a verdict; a root needs no words. -/
def text? : Verdict → Option String
  | root => none
  | signReversal => some "Sign Reversal"
  | extremum => some "Extremum"
  | badGuesses => some "Bad Guess(es)"
  | constant => some "Constant?"

end Verdict

namespace Solver

/-- What a sample is for. -/
inductive Stage where
  | firstGuess
  /-- The second guess, after the first one failed. -/
  | secondGuess
  /-- Either end, until the function differs at them. -/
  | ends
  | secant
  /-- A halving in place of a secant step. -/
  | halving
  /-- The middle of a bracketed root. -/
  | middle
  /-- The point that Ridders' formula gives for the middle. -/
  | ridders
deriving DecidableEq, Repr, Inhabited

/-- Stages are numbered from one; zero means that no search is in progress. -/
def Stage.code (stage : Stage) : UInt8 := (stage.ctorIdx + 1).toUInt8

/-- The stage with a number, if there is one. -/
def Stage.ofCode? (code : UInt8) : Option Stage :=
  match code.toNat with
  | 1 => some firstGuess
  | 2 => some secondGuess
  | 3 => some ends
  | 4 => some secant
  | 5 => some halving
  | 6 => some middle
  | 7 => some ridders
  | _ => none

/-- The number of the lower end of the interval. -/
def lowerEnd : UInt8 := 1

/-- The number of the upper end of the interval. -/
def upperEnd : UInt8 := 2

/-- The number of the point between or beyond the ends. -/
def probePoint : UInt8 := 3

/-- Stands for the point with the smallest result. -/
def bestPoint : UInt8 := 255

/-- What the solver wants next. -/
inductive Step where
  /-- The function at a point, to go on in a stage. -/
  | sample (point : UInt8) (stage : Stage)
  | finish (verdict : Verdict)
  /-- No search is in progress. -/
  | idle
deriving DecidableEq, Repr, Inhabited

end Solver

/-- The state of the solver. -/
structure Solver where
  /-- The function chosen for the next search. -/
  chosenFunction : List UInt8 := []
  /-- The function of this search. -/
  function : List UInt8 := []
  /-- The variable that is solved for. -/
  variableName : List UInt8 := []
  /-- Whether a program goes on with the result. -/
  keepsRunning : Bool := false
  /-- The program that started the search, and where it goes on. -/
  program : Nat := 0
  address : Option Nat := none
  /-- The number of the stage. -/
  stage : UInt8 := 0
  /-- The number of the point sampled last. -/
  sampled : UInt8 := 0
  alternates : Bool := false
  /-- Counts the samples after which running off to infinity is no longer suspicious; positive while
  the guess `retryGuess` may be tried, negative while zero and one may. -/
  patience : Int := 0
  retryGuess : Binary64 := 0
  lower : Binary64 := 0
  upper : Binary64 := 0
  probe : Binary64 := 0
  lowerResult : Binary64 := 0
  upperResult : Binary64 := 0
  previousPoint : Binary64 := 0
  currentPoint : Binary64 := 0
  currentResult : Binary64 := 0
  middle : Binary64 := 0
  middleResult : Binary64 := 0
deriving DecidableEq, Inhabited

namespace Solver

variable (solver : Solver)

/-- The point with a number. -/
def point (number : UInt8) : Binary64 :=
  if number = lowerEnd then solver.lower
  else if number = upperEnd then solver.upper
  else solver.probe

/-- The middle of the interval. -/
def center : Binary64 := (solver.lower + solver.upper) / 2

/-- Whether two numbers are on different sides of zero. -/
def differInSign (x y : Binary64) : Bool := (0 < x && y < 0) || (x < 0 && 0 < y)

/-- Exchange the ends and their results. -/
def exchangeEnds : Solver :=
  { solver with
    lower := solver.upper, upper := solver.lower
    lowerResult := solver.upperResult, upperResult := solver.lowerResult }

/-- Replace the lower end by the probe, where the function has the given result. -/
def probeToLower (result : Binary64) : Solver :=
  { solver with lower := solver.probe, lowerResult := result }

/-- Replace the upper end by the probe, where the function has the given result. -/
def probeToUpper (result : Binary64) : Solver :=
  { solver with upper := solver.probe, upperResult := result }

/-- Sample the middle of the interval instead of a secant step. -/
def halve : Step × Solver :=
  (.sample probePoint .halving, { solver with probe := solver.center })

/-- Begin a step of Ridders' method, unless nothing lies between the ends. -/
def bracket : Step × Solver :=
  let center := solver.center
  if center ≤ solver.lower ∨ solver.upper ≤ center then
    (.finish .root, { solver with probe := center, sampled := bestPoint })
  else (.sample probePoint .middle, { solver with probe := center })

/-- The guess next to a single guess. -/
def besides (guess : Binary64) : Binary64 :=
  let above := guess * 1.000001
  if above.isInfinite then guess * 0.999999 else above

/-- The search ran off to infinity suspiciously fast. Of two guesses the smaller is tried alone; after
that, zero and one. -/
def retry : Step × Solver :=
  let restarted : Solver :=
    if 0 < solver.patience then
      let lower := solver.retryGuess
      let upper := besides lower
      if upper < lower then { solver with lower := upper, upper := lower, patience := -10 }
      else { solver with lower, upper, patience := -10 }
    else { solver with lower := 0, upper := 1, patience := 0 }
  (.sample lowerEnd .firstGuess, restarted)

/-- Give up with a verdict, unless another guess may be tried. -/
def retryOr (verdict : Verdict) : Step × Solver :=
  if solver.patience ≠ 0 then solver.retry else (.finish verdict, solver)

/-- The function is the same at both ends: move one of them far out, alternating between them. -/
def widen : Step × Solver :=
  if solver.alternates then
    let upper := solver.upper + 100 * (solver.upper - solver.lower)
    if upper.isInfinite then solver.retryOr .constant
    else (.sample upperEnd .ends, { solver with upper, alternates := false })
  else
    let lower := solver.lower - 100 * (solver.upper - solver.lower)
    if lower.isInfinite then solver.retryOr .constant
    else (.sample lowerEnd .ends, { solver with lower, alternates := true })

/-- Keep a secant step from going too far out, and from coming too close to an end. -/
def limitedProbe : Binary64 :=
  let width := solver.upper - solver.lower
  if solver.probe < solver.lower then solver.probe.maximum (solver.lower - 100 * width)
  else if solver.upper < solver.probe then solver.probe.minimum (solver.upper + 100 * width)
  else
    let margin := width / 10
    if solver.probe < solver.lower + margin then solver.lower + margin
    else if solver.upper - margin < solver.probe then solver.upper - margin
    else solver.probe

/-- A slope from which on a step that does not move may be the fault of rounding. -/
def steep (slope : Binary64) : Bool := (1e50 : Binary64) < slope.abs

/-- Go on from a secant step that has put the probe somewhere. -/
def fromSecant (slope : Binary64) : Step × Solver :=
  if solver.probe.isInfinite then solver.retryOr .extremum
  else if solver.probe.equals solver.lower then
    if steep slope then
      (.sample probePoint .secant,
        { solver with probe := solver.lower - (solver.upper - solver.lower) / 100 })
    else
      (.finish .root,
        { solver with
          sampled := lowerEnd, currentResult := solver.lowerResult
          previousPoint := solver.upper })
  else if solver.probe.equals solver.upper then
    if steep slope then
      (.sample probePoint .secant,
        { solver with probe := solver.upper + (solver.upper - solver.lower) / 100 })
    else
      (.finish .root,
        { solver with
          sampled := upperEnd, currentResult := solver.upperResult
          previousPoint := solver.lower })
  else (.sample probePoint .secant, { solver with probe := solver.limitedProbe })

/-- A secant step, or Ridders' method if the root is bracketed. -/
def secantStep : Step × Solver :=
  if solver.lowerResult.equals solver.upperResult then (.finish .extremum, solver)
  else if differInSign solver.lowerResult solver.upperResult then solver.bracket
  else
    let rise := solver.upperResult - solver.lowerResult
    let run := solver.upper - solver.lower
    let slope := rise / run
    if slope.isInfinite then
      let center := solver.center
      let halved : Solver := { solver with probe := center }
      if center.equals solver.lower || center.equals solver.upper then (.finish .root, halved)
      else (.sample probePoint .secant, halved)
    else
      let probe :=
        if slope.isZero then solver.lower - solver.lowerResult * run / rise
        else solver.lower - solver.lowerResult / slope
      fromSecant { solver with probe } slope

/-- The probe failed between the ends: try nearer to the end it is close to, and then its mirror
image. -/
def approachBetween : Step × Solver :=
  let moved :=
    if solver.alternates then
      if solver.probe ≤ solver.center then (solver.lower + solver.probe) / 2
      else (solver.upper + solver.probe) / 2
    else solver.lower + solver.upper - solver.probe
  if solver.alternates && moved.equals solver.probe then
    (.finish .signReversal, { solver with probe := moved })
  else
    let next : Solver := { solver with probe := moved, alternates := !solver.alternates }
    if moved.equals solver.lower || moved.equals solver.upper then (.finish .signReversal, next)
    else (.sample probePoint .secant, next)

/-- The probe failed: come closer to the end beyond which it lies. -/
def approach : Step × Solver :=
  let closer (bound : Binary64) : Step × Solver :=
    let probe := (bound + solver.probe) / 2
    let next : Solver := { solver with probe }
    if probe.equals bound then (.finish .extremum, next) else (.sample probePoint .secant, next)
  if solver.upper < solver.probe then closer solver.upper
  else if solver.probe < solver.lower then closer solver.lower
  else solver.approachBetween

/-- Put the ends in order and go on with a secant step. -/
def orderedSecantStep : Step × Solver :=
  if solver.upper < solver.lower then solver.exchangeEnds.secantStep else solver.secantStep

/-- A sample of a secant step, or of a halving in its place, has arrived. Of two ends on the same side
of zero the probe replaces the one farther from it, if it comes closer than that; a halving always
does. -/
def takeSecant (isHalving : Bool) (result : Binary64) : Step × Solver :=
  let lower := solver.lowerResult
  let upper := solver.upperResult
  if 0 < lower ∧ 0 < upper then
    if upper < lower then
      if lower ≤ result ∧ !isHalving then solver.halve
      else (solver.probeToLower result).orderedSecantStep
    else if upper ≤ result ∧ !isHalving then solver.halve
    else (solver.probeToUpper result).orderedSecantStep
  else if lower < 0 ∧ upper < 0 then
    if lower < upper then
      if result ≤ lower ∧ !isHalving then solver.halve
      else (solver.probeToLower result).orderedSecantStep
    else if result ≤ upper ∧ !isHalving then solver.halve
    else (solver.probeToUpper result).orderedSecantStep
  else if (0 < lower ∧ 0 < result) ∨ (lower < 0 ∧ result < 0) then
    (solver.probeToLower result).orderedSecantStep
  else (solver.probeToUpper result).orderedSecantStep

/-- The sample in the middle of a bracketed root has arrived. -/
def takeMiddle (result : Binary64) : Step × Solver :=
  let root := (result * result - solver.lowerResult * solver.upperResult).sqrt
  if root.isZero then (.finish .root, { solver with sampled := bestPoint })
  else
    let divisor := if solver.lowerResult < solver.upperResult then -root else root
    let solver : Solver := { solver with middle := solver.probe, middleResult := result }
    let next :=
      solver.middle + (solver.middle - solver.lower) * (solver.middleResult / divisor)
    if next.equals solver.lower || next.equals solver.upper then
      (.finish .root, { solver with sampled := bestPoint })
    else (.sample probePoint .ridders, { solver with probe := next })

/-- The sample of Ridders' formula has arrived: keep the smallest bracket. -/
def takeRidders (result : Binary64) : Step × Solver :=
  if differInSign result solver.middleResult then
    if solver.middle < solver.probe then
      bracket
        { solver with
          lower := solver.middle, lowerResult := solver.middleResult
          upper := solver.probe, upperResult := result }
    else
      bracket
        { solver with
          lower := solver.probe, lowerResult := result
          upper := solver.middle, upperResult := solver.middleResult }
  else if differInSign result solver.lowerResult then (solver.probeToUpper result).bracket
  else (solver.probeToLower result).bracket

/-- A sample at one of the ends has arrived. -/
def takeEnd (result : Binary64) : Step × Solver :=
  let solver : Solver :=
    if solver.sampled = lowerEnd then { solver with lowerResult := result }
    else { solver with upperResult := result }
  if solver.lowerResult.equals solver.upperResult then solver.widen else solver.secantStep

/-- The sample at one of the ends failed: move it to the middle. -/
def moveFailedEnd : Step × Solver :=
  let next : Solver :=
    if solver.sampled = lowerEnd then { solver with lower := solver.center }
    else { solver with upper := solver.center }
  if next.lower.equals next.upper then (.finish .badGuesses, next)
  else (.sample solver.sampled .ends, next)

/-- Go on after a sample, which is none if the function failed. -/
def advance (result : Option Binary64) : Step × Solver :=
  match Stage.ofCode? solver.stage, result with
  | none, _ => (.idle, solver)
  | some .firstGuess, none =>
    (.sample upperEnd .secondGuess,
      { solver with patience := if 0 < solver.patience then -solver.patience else solver.patience })
  | some .firstGuess, some result =>
    (.sample upperEnd .ends, { solver with lowerResult := result })
  | some .secondGuess, none => (.finish .badGuesses, solver)
  | some .secondGuess, some result =>
    let next : Solver := { solver with upperResult := result, lower := solver.center }
    if next.lower.equals next.upper then (.finish .badGuesses, next)
    else (.sample lowerEnd .ends, next)
  | some .ends, none => solver.moveFailedEnd
  | some .ends, some result => solver.takeEnd result
  | some .secant, none | some .halving, none => solver.approach
  | some .secant, some result => solver.takeSecant false result
  | some .halving, some result => solver.takeSecant true result
  | some .middle, none | some .ridders, none => solver.halve
  | some .middle, some result => solver.takeMiddle result
  | some .ridders, some result => solver.takeRidders result

/-- Begin a search between two guesses. -/
def start (first second : Binary64) : Solver :=
  let begun : Solver :=
    if first.equals second then
      if first.isZero then { solver with lower := first, upper := 1, patience := 0 }
      else { solver with lower := first, upper := besides first, patience := -10 }
    else
      { solver with
        lower := first, upper := second, patience := 10
        retryGuess := if first.abs < second.abs then first else second }
  let ordered : Solver :=
    if begun.upper < begun.lower then { begun with lower := begun.upper, upper := begun.lower }
    else begun
  { ordered with alternates := true }

/-- Note that a sample at a point is being taken. -/
def sampling (number : UInt8) (stage : Stage) : Solver :=
  { solver with
    previousPoint := solver.currentPoint
    currentPoint := solver.point number
    sampled := number
    stage := stage.code }

/-- Come one sample closer to the end of the patience. -/
def lessPatience : Solver := { solver with patience := solver.patience - solver.patience.sign }

/-- The number of the point with the smallest result, the upper end before the lower. -/
def smallest : UInt8 :=
  let lower := solver.lowerResult.abs
  let upper := solver.upperResult.abs
  let (number, size) := if lower < upper then (lowerEnd, lower) else (upperEnd, upper)
  if solver.currentResult.abs < size then probePoint else number

/-- The answer of a search that ended. -/
def answer : Binary64 × Solver :=
  let solver : Solver :=
    if solver.sampled = bestPoint then { solver with sampled := solver.smallest } else solver
  (solver.point solver.sampled, solver)

end Solver

end Keystroke
