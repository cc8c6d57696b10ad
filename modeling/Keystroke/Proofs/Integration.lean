import Mathlib
import Keystroke.Integrator

/-!
# How long an integration takes

A pass takes twice as many samples as the one before, and from the fifth on the table is shifted
before there is a new sum. So the table never overflows, and there is an end after at most nineteen
passes, whatever the samples are. That nothing is read or written beside the tables is stated with a
second form of the integrator, which checks every place and changes the tables place by place.
-/

namespace Keystroke.Integrator

/-! ## With every place checked -/

/-- Write a place of a table, if the table has it. -/
def put? {size : Nat} (table : Vector Binary64 size) (place : Nat) (number : Binary64) :
    Option (Vector Binary64 size) :=
  if within : place < size then some (table.set place number) else none

/-- Copy the first sums of the table into a column, place by place. -/
def copySums? (table : Vector Binary64 6) (column : Vector Binary64 5) :
    Option (Vector Binary64 5) :=
  (List.range extrapolated).foldlM
    (fun column place => do put? column place (← table[place]?)) column

/-- Replace the first places of a column one after the other by those of the next column. -/
def nextColumn? (factor : Binary64) (places : Nat) (column : Vector Binary64 5) :
    Option (Vector Binary64 5) :=
  (List.range places).foldlM
    (fun column place => do
      let next ← column[place + 1]?
      let here ← column[place]?
      put? column place ((next - here * factor * 4) / (1 - factor)))
    column

/-- Move the sums of the table one place to the front, one after the other. -/
def shiftTable? (table : Vector Binary64 6) : Option (Vector Binary64 6) :=
  (List.range (extrapolated - 1)).foldlM
    (fun table place => do put? table place (← table[place + 1]?)) table

variable (integrator : Integrator)

/-- Extrapolate the first five sums of the table. -/
def extrapolate? : Option Integrator := do
  let start ← copySums? integrator.table integrator.column
  let last ← integrator.table[extrapolated - 1]?
  let (_, column, sum) ← [1, 2, 3, 4].foldlM
    (fun (factor, column, sum) m => do
      let factor := factor / 4
      let column ← nextColumn? factor (extrapolated - m) column
      let corrected ← column[extrapolated - 1 - m]?
      return (factor, column, sum + corrected * factor))
    ((1 : Binary64), start, last)
  return { integrator with column, sum }

/-- All samples of a pass are there. -/
def endPass? : Option (Step × Integrator) := do
  let integral := (integrator.integral + integrator.sum * integrator.stepSize) / 2
  let table ← put? integrator.table integrator.filled integral
  let summed : Integrator :=
    { integrator with integral, table, filled := integrator.filled + 1 }
  if extrapolated - 1 ≤ summed.pass then
    let summed ← summed.extrapolate?
    let result := summed.result
    let compared : Integrator :=
      { summed with
        difference := (summed.previousResult - result).abs
        previousResult := result }
    if compared.difference ≤ compared.accuracy * result.abs then return (.finish, compared)
    else
      let table ← shiftTable? compared.table
      return nextPass { compared with table, filled := extrapolated - 1 }
  else return summed.nextPass

/-- The state with one more sample, where one that failed counts as zero. -/
def counting (result : Option Binary64) : Integrator :=
  { integrator with
    sum :=
      match result with
      | some result => integrator.sum + integrator.weight * result
      | none => integrator.sum
    parameter := integrator.parameter + integrator.stepSize
    taken := integrator.taken + 1 }

/-- Go on after a sample. -/
def advance? (result : Option Binary64) : Option (Step × Integrator) :=
  match integrator.stage.toNat with
  | 1 => some (beginPass { integrator with stage := 2 })
  | 2 =>
    let next := integrator.counting result
    if next.taken < next.wanted then some next.sample else next.endPass?
  | _ => some (.idle, integrator)

/-- Begin an integration between two limits. -/
def start? (lower upper accuracy : Binary64) : Option Integrator := do
  let table ← put? integrator.table 0 0
  return { integrator.start lower upper accuracy with table }

/-! ## The checks pass -/

theorem put?_of_lt {size place : Nat} {table : Vector Binary64 size} {number : Binary64}
    (within : place < size) : put? table place number = some (table.set place number) :=
  dif_pos within

/-- A table whose first places were overwritten. -/
def overwritten {size : Nat} (table : Vector Binary64 size) (number : Nat → Binary64)
    (count : Nat) : Vector Binary64 size :=
  Vector.ofFn fun place => if place.val < count then number place.val else table.get place

section Overwriting

variable {size : Nat} {table : Vector Binary64 size} {number : Nat → Binary64} {count place : Nat}

@[simp]
theorem overwritten_zero : overwritten table number 0 = table := by
  ext place within
  simp [overwritten, Vector.get]

theorem overwritten_succ (within : count < size) :
    overwritten table number (count + 1) =
      (overwritten table number count).set count (number count) := by
  ext place inside
  simp only [overwritten, Vector.getElem_set, Vector.getElem_ofFn]
  by_cases same : count = place
  · simp [same]
  · have next : place < count + 1 ↔ place < count := by omega
    simp [same, next]

/-- What was not overwritten is as it was. -/
theorem getElem_overwritten (within : place < size) (behind : count ≤ place) :
    (overwritten table number count)[place] = table[place] := by
  have behind : ¬place < count := by omega
  simp [overwritten, Vector.get, behind]

/-- A loop that writes the first places one after the other overwrites them. -/
theorem foldlM_put? {body : Vector Binary64 size → Nat → Option (Vector Binary64 size)}
    (within : count ≤ size)
    (step : ∀ place < count,
      body (overwritten table number place) place =
        put? (overwritten table number place) place (number place)) :
    (List.range count).foldlM body table = some (overwritten table number count) := by
  induction count with
  | zero => simp
  | succ count ih =>
      have earlier := ih (by omega) fun place before => step place (by omega)
      simp [List.range_succ, List.foldlM_append, earlier, step count (by omega),
        put?_of_lt within, overwritten_succ within]

end Overwriting

theorem copySums?_eq (table : Vector Binary64 6) (column : Vector Binary64 5) :
    copySums? table column =
      some (Vector.ofFn fun place : Fin 5 => table.toArray.getD place.val 0) := by
  have copied : (Vector.ofFn fun place : Fin 5 => table.toArray.getD place.val 0) =
      overwritten column (fun place => table.toArray.getD place 0) 5 := by
    ext place within
    simp [overwritten]
  rw [copied]
  refine foldlM_put? (Nat.le_refl 5) fun place (within : place < 5) => ?_
  have inside : place < 6 := by omega
  simp [inside]

theorem nextColumn?_eq {places : Nat} (within : places < 5) (factor : Binary64)
    (column : Vector Binary64 5) :
    nextColumn? factor places column = some (nextColumn factor places column) := by
  have next : nextColumn factor places column =
      overwritten column
        (fun place =>
          (column.toArray.getD (place + 1) 0 - column.toArray.getD place 0 * factor * 4) /
            (1 - factor)) places := by
    ext place inside
    simp [nextColumn, overwritten, Vector.get]
  rw [next]
  refine foldlM_put? (Nat.le_of_lt within) fun place before => ?_
  have behind : place + 1 < 5 := by omega
  have here : place < 5 := by omega
  simp [getElem_overwritten, behind, here]

theorem shiftTable?_eq (table : Vector Binary64 6) :
    shiftTable? table = some (shiftTable table) := by
  have shifted : shiftTable table =
      overwritten table (fun place => table.toArray.getD (place + 1) 0) (extrapolated - 1) :=
    rfl
  rw [shifted]
  refine foldlM_put? (by decide) fun place (before : place < 4) => ?_
  have behind : place + 1 < 6 := by omega
  simp [getElem_overwritten, behind]

variable {integrator : Integrator}

theorem extrapolate?_eq : integrator.extrapolate? = some integrator.extrapolate := by
  simp [extrapolate?, extrapolate, copySums?_eq, nextColumn?_eq, extrapolated]

/-- A write that the table has room for. -/
theorem put?_eq_setIfInBounds {size place : Nat} {table : Vector Binary64 size}
    (within : place < size) (number : Binary64) :
    put? table place number = some (table.setIfInBounds place number) := by
  rw [put?_of_lt within]
  congr 1
  ext other inside
  simp [Vector.getElem_set, Vector.getElem_setIfInBounds]

theorem endPass?_eq (room : integrator.filled < 6) :
    integrator.endPass? = some integrator.endPass := by
  simp only [endPass?, endPass, put?_eq_setIfInBounds room, extrapolate?_eq, shiftTable?_eq,
    Option.bind_eq_bind, Option.bind_some]
  split
  · split <;> rfl
  · rfl

theorem advance_eq (result : Option Binary64) :
    integrator.advance result =
      match integrator.stage.toNat with
      | 1 => beginPass { integrator with stage := 2 }
      | 2 =>
        if (integrator.counting result).taken < (integrator.counting result).wanted then
          (integrator.counting result).sample
        else (integrator.counting result).endPass
      | _ => (.idle, integrator) :=
  rfl

theorem advance?_eq (room : integrator.filled < 6) (result : Option Binary64) :
    integrator.advance? result = some (integrator.advance result) := by
  rw [advance?, advance_eq]
  split
  · rfl
  · have room : (integrator.counting result).filled < 6 := room
    simp only [endPass?_eq room]
    exact (apply_ite some _ _ _).symm
  · rfl

theorem start?_eq (lower upper accuracy : Binary64) :
    integrator.start? lower upper accuracy = some (integrator.start lower upper accuracy) := by
  rw [start?, put?_eq_setIfInBounds (by decide)]
  rfl

/-! ## The counters -/

/-- The counters during a pass. -/
structure IsPassing (integrator : Integrator) : Prop where
  stage : integrator.stage = 2
  first : 1 ≤ integrator.pass
  pass : integrator.pass < maximalPasses
  wanted : integrator.wanted = 2 ^ (integrator.pass - 1)
  filled : integrator.filled = min integrator.pass (extrapolated - 1)

/-- A sample was asked for, after so many were given. -/
structure Awaits (integrator : Integrator) (given : Nat) : Prop extends IsPassing integrator where
  taken : integrator.taken < integrator.wanted
  given : given + 1 = integrator.wanted + integrator.taken

/-- The integration came to its end, after so many samples. -/
structure Ends (integrator : Integrator) (given : Nat) : Prop where
  fewest : 15 ≤ given
  most : given ≤ 2 ^ 19 - 1
  wanted : integrator.wanted ≤ 2 ^ 19

/-- What a step does: it asks for one more sample, or it is the end. -/
inductive Follows : Step × Integrator → Nat → Prop where
  | sample {integrator : Integrator} {given : Nat} (awaits : integrator.Awaits given) :
      Follows (.sample, integrator) given
  | finish {integrator : Integrator} {given : Nat} (ends : integrator.Ends given) :
      Follows (.finish, integrator) given

theorem IsPassing.wanted_pos (passing : integrator.IsPassing) : 0 < integrator.wanted :=
  passing.wanted ▸ Nat.two_pow_pos _

/-- All passes together take one sample less than two to the number of passes. -/
theorem IsPassing.two_mul_wanted (passing : integrator.IsPassing) :
    2 * integrator.wanted = 2 ^ integrator.pass := by
  rw [passing.wanted, ← Nat.pow_succ', Nat.succ_eq_add_one, Nat.sub_add_cancel passing.first]

/-- In front of a pass, as many samples were given as it wants but one. -/
theorem IsPassing.follows_beginPass (passing : integrator.IsPassing) {given : Nat}
    (given_eq : given + 1 = integrator.wanted) : Follows integrator.beginPass given :=
  .sample
    { stage := passing.stage
      first := passing.first
      pass := passing.pass
      wanted := passing.wanted
      filled := passing.filled
      taken := passing.wanted_pos
      given := given_eq }

theorem follows_start (lower upper accuracy : Binary64) (result : Option Binary64) :
    Follows ((integrator.start lower upper accuracy).advance result) 0 := by
  have passing :
      IsPassing { integrator.start lower upper accuracy with stage := 2 } :=
    ⟨rfl, Nat.le_refl 1, (by decide : 1 < 20), rfl, rfl⟩
  exact passing.follows_beginPass rfl

/-- A pass with twice the samples, unless it was the last one. -/
theorem follows_nextPass {after : Integrator} {given : Nat} (passing : integrator.IsPassing)
    (stage : after.stage = 2) (pass : after.pass = integrator.pass)
    (wanted : after.wanted = integrator.wanted)
    (filled : after.filled = min (integrator.pass + 1) (extrapolated - 1))
    (given_eq : given + 1 = 2 * integrator.wanted) : Follows after.nextPass given := by
  have doubled : after.wanted * 2 = 2 ^ integrator.pass := by
    rw [wanted, Nat.mul_comm, passing.two_mul_wanted]
  unfold nextPass
  dsimp only
  split
  · rename_i last
    have last : 20 ≤ after.pass + 1 := last
    have before : integrator.pass < 20 := passing.pass
    have pass_eq : integrator.pass = 19 := by omega
    have wanted_eq : after.wanted * 2 = 2 ^ 19 := by rw [doubled, pass_eq]
    exact .finish ⟨by omega, by omega, Nat.le_of_eq wanted_eq⟩
  · rename_i more
    have next : IsPassing
        { after with
          wanted := after.wanted * 2
          stepSize := after.stepSize / 2
          pass := after.pass + 1 } :=
      { stage := stage
        first := Nat.le_add_left 1 _
        pass := Nat.lt_of_not_le more
        wanted := by simpa [pass] using doubled
        filled := by simpa [pass] using filled }
    exact next.follows_beginPass (by rw [given_eq, ← wanted, Nat.mul_comm])

/-- The pass that is complete gives a sum. From the fourth on it may be the last; and from the fifth on
the table was full but for one place, which the shift leaves so. -/
theorem follows_endPass {given : Nat} (passing : integrator.IsPassing)
    (given_eq : given + 1 = 2 * integrator.wanted) : Follows integrator.endPass given := by
  have pass_lt : integrator.pass < 20 := passing.pass
  have filled : integrator.filled = min integrator.pass 4 := passing.filled
  unfold endPass
  dsimp only
  split
  · rename_i enough
    have enough : 4 ≤ integrator.pass := enough
    split
    · have fewest : 2 ^ 4 ≤ 2 ^ integrator.pass := Nat.pow_le_pow_right (by decide) enough
      have most : 2 ^ integrator.pass ≤ 2 ^ 19 := Nat.pow_le_pow_right (by decide) (by omega)
      rw [passing.two_mul_wanted] at given_eq
      have wanted : 2 * integrator.wanted ≤ 2 ^ 19 := passing.two_mul_wanted ▸ most
      exact .finish ⟨by omega, by omega, by show integrator.wanted ≤ _; omega⟩
    · exact follows_nextPass passing passing.stage rfl rfl
        (by simp only [extrapolated]; omega) given_eq
  · rename_i few
    have few : ¬4 ≤ integrator.pass := few
    exact follows_nextPass passing passing.stage rfl rfl
      (by simp only [extrapolated, filled]; omega) given_eq

/-- A sample leads to the next question or to the end. -/
theorem Awaits.follows_advance {given : Nat} (awaits : integrator.Awaits given)
    (result : Option Binary64) : Follows (integrator.advance result) (given + 1) := by
  have taken := awaits.taken
  have given_eq := awaits.given
  have passing : (integrator.counting result).IsPassing :=
    ⟨awaits.stage, awaits.first, awaits.pass, awaits.wanted, awaits.filled⟩
  rw [advance_eq, awaits.stage]
  show Follows (if integrator.taken + 1 < integrator.wanted then _ else _) _
  split
  · rename_i more
    exact .sample ⟨⟨passing.1, passing.2, passing.3, passing.4, passing.5⟩, more,
      congrArg (· + 1) given_eq⟩
  · exact follows_endPass passing (by show _ = 2 * integrator.wanted; omega)

/-! ## A whole integration -/

variable (begun : Integrator) (outcomes : Nat → Option Binary64)

/-- The step after so many samples and the state it leaves. The first outcome is what is there before
the first sample. -/
def steps : Nat → Step × Integrator
  | 0 => begun.advance (outcomes 0)
  | given + 1 => (steps given).2.advance (outcomes (given + 1))

/-- The step after so many samples, with every place checked. -/
def steps? : Nat → Option (Step × Integrator)
  | 0 => begun.advance? (outcomes 0)
  | given + 1 => do (← steps? given).2.advance? (outcomes (given + 1))

variable {begun : Integrator} {outcomes : Nat → Option Binary64} {given : Nat}

theorem Awaits.filled_le (awaits : integrator.Awaits given) : integrator.filled ≤ 4 :=
  awaits.filled ▸ Nat.min_le_right _ _

theorem Awaits.wanted_le (awaits : integrator.Awaits given) : integrator.wanted ≤ 2 ^ 18 := by
  have pass : integrator.pass < 20 := awaits.pass
  rw [awaits.wanted]
  exact Nat.pow_le_pow_right (by decide) (by omega)

/-- As long as there is a question there are samples left. -/
theorem Awaits.given_lt (awaits : integrator.Awaits given) : given < 2 ^ 19 - 1 := by
  have wanted := awaits.wanted_le
  have taken := awaits.taken
  have given_eq := awaits.given
  omega

theorem Follows.awaits {step : Step × Integrator} (follows : Follows step given)
    (sample : step.1 = .sample) : step.2.Awaits given := by
  cases follows with
  | sample awaits => exact awaits
  | finish ends => cases sample

theorem Follows.ends {step : Step × Integrator} (follows : Follows step given)
    (sample : step.1 ≠ .sample) : step.1 = .finish ∧ step.2.Ends given := by
  cases follows with
  | sample awaits => exact absurd rfl sample
  | finish ends => exact ⟨rfl, ends⟩

/-- A run up to its end is a run of questions. -/
theorem follows_steps (lower upper accuracy : Binary64)
    (asks : ∀ earlier < given,
      (steps (integrator.start lower upper accuracy) outcomes earlier).1 = .sample) :
    Follows (steps (integrator.start lower upper accuracy) outcomes given) given := by
  induction given with
  | zero => exact follows_start lower upper accuracy _
  | succ given ih =>
      have follows := ih fun earlier before => asks earlier (Nat.lt_succ_of_lt before)
      exact (follows.awaits (asks given (Nat.lt_succ_self given))).follows_advance _

/-- The checks of a run pass as long as the table has room. -/
theorem steps?_eq (room : begun.filled < 6)
    (more : ∀ earlier < given, (steps begun outcomes earlier).2.filled < 6) :
    steps? begun outcomes given = some (steps begun outcomes given) := by
  induction given with
  | zero => exact advance?_eq room _
  | succ given ih =>
      have earlier := ih fun earlier before => more earlier (Nat.lt_succ_of_lt before)
      simp [steps?, steps, earlier, advance?_eq (more given (Nat.lt_succ_self given))]

/-- Whatever the samples are, the integration comes to its end after at least fifteen and less than
`2 ^ 19` of them. Up to then it asks for one after the other; nothing is read or written beside the
tables, a sum is never written behind the fifth place, and no pass wants more than `2 ^ 19` samples. -/
theorem exists_end_of_start (integrator : Integrator) (lower upper accuracy : Binary64)
    (outcomes : Nat → Option Binary64) :
    let begun := integrator.start lower upper accuracy
    integrator.start? lower upper accuracy = some begun ∧
    begun.filled ≤ 4 ∧ begun.wanted ≤ 2 ^ 19 ∧
    ∃ samples, 15 ≤ samples ∧ samples ≤ 2 ^ 19 - 1 ∧
      (∀ given < samples, (steps begun outcomes given).1 = .sample) ∧
      (steps begun outcomes samples).1 = .finish ∧
      (∀ given ≤ samples, steps? begun outcomes given = some (steps begun outcomes given)) ∧
      (∀ given < samples, (steps begun outcomes given).2.filled ≤ 4) ∧
      ∀ given ≤ samples, (steps begun outcomes given).2.wanted ≤ 2 ^ 19 := by
  intro begun
  refine ⟨start?_eq lower upper accuracy, (by decide : 1 ≤ 4), (by decide : 1 ≤ 2 ^ 19), ?_⟩
  have ended : ∃ samples, (steps begun outcomes samples).1 ≠ .sample := by
    by_contra never
    have asks : ∀ given, (steps begun outcomes given).1 = .sample := by simpa using never
    have follows : Follows (steps begun outcomes (2 ^ 19)) (2 ^ 19) :=
      follows_steps lower upper accuracy fun given _ => asks given
    exact absurd (follows.awaits (asks _)).given_lt (by decide)
  obtain ⟨samples, last, earlier⟩ := Nat.findX ended
  have asks : ∀ given < samples, (steps begun outcomes given).1 = .sample :=
    fun given before => not_not.1 (earlier given before)
  have awaits : ∀ given < samples, (steps begun outcomes given).2.Awaits given :=
    fun given before =>
      (follows_steps lower upper accuracy fun first sooner =>
        asks first (Nat.lt_trans sooner before)).awaits (asks given before)
  obtain ⟨finish, ends⟩ := (follows_steps lower upper accuracy asks).ends last
  refine ⟨samples, ends.fewest, ends.most, asks, finish, fun given within => ?_,
    fun given before => (awaits given before).filled_le, fun given within => ?_⟩
  · refine steps?_eq (by decide : 1 < 6) fun first sooner => ?_
    have filled := (awaits first (by omega)).filled_le
    omega
  · rcases Nat.lt_or_eq_of_le within with before | rfl
    · have wanted := (awaits given before).wanted_le
      omega
    · exact ends.wanted

end Keystroke.Integrator
