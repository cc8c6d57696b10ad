import Mathlib
import Keystroke.Machine.Storage

/-!
# Stacks of four levels

A stack is fitted if it holds four values whenever it is in four-level mode. Every operation of the stack
leaves a fitted one.
-/

namespace Keystroke

namespace Stack

/-- A stack that holds exactly four values while it is in four-level mode. -/
def IsFitted (stack : Stack) : Prop := stack.isBig = false → stack.values.length = fourLevels

theorem isFitted_initial : initial.IsFitted := fun _ => rfl

/-- In many-level mode there is nothing to fit. -/
theorem isFitted_of_big {stack : Stack} (big : stack.isBig = true) : stack.IsFitted := fun small =>
  absurd big (by simp [small])

theorem length_fitFour (values : List Value) : (fitFour values).length = fourLevels := by
  simp [fitFour]
  omega

theorem isFitted_ofValues (isBig : Bool) (values : List Value) : (ofValues isBig values).IsFitted := by
  intro small
  obtain rfl : isBig = false := small
  exact length_fitFour values

theorem isFitted_setBig (stack : Stack) (isBig : Bool) : (stack.setBig isBig).IsFitted :=
  isFitted_ofValues isBig stack.values

theorem isFitted_clear (stack : Stack) : stack.clear.IsFitted := by
  intro small
  have small : stack.isBig = false := small
  simp [clear, small, fourZeros]

namespace IsFitted

variable {stack rest : Stack}

/-- A fitted stack of four levels has a top and three values below it. -/
theorem exists_values (fitted : stack.IsFitted) (small : stack.isBig = false) :
    ∃ x y z t, stack.values = [x, y, z, t] := by
  obtain ⟨x, y, z, t, values⟩ := List.length_eq_four.mp (fitted small)
  exact ⟨x, y, z, t, values⟩

theorem push (fitted : stack.IsFitted) (value : Value) : (stack.push value).IsFitted := by
  intro small
  have small : stack.isBig = false := small
  obtain ⟨x, y, z, t, values⟩ := fitted.exists_values small
  simp [Stack.push, small, values, fourLevels]

theorem setX (fitted : stack.IsFitted) (value : Value) : (stack.setX value).IsFitted := by
  rcases values : stack.values with _ | ⟨x, rest⟩
  · rw [Stack.setX, values]
    exact fitted.push value
  · intro small
    have length := fitted (by simpa [Stack.setX, values] using small)
    simpa [Stack.setX, values] using length

theorem set (fitted : stack.IsFitted) (distance : Nat) (value : Value) :
    (stack.set distance value).IsFitted := fun small => by
  simpa [Stack.set] using fitted small

theorem pop (fitted : stack.IsFitted) {value : Value} (popped : stack.pop = .ok (value, rest)) :
    rest.IsFitted := by
  rcases values : stack.values with _ | ⟨x, below⟩
  · simp only [Stack.pop, values] at popped
    split at popped <;> cases popped
  · simp only [Stack.pop, values] at popped
    cases popped
    intro small
    have small : stack.isBig = false := small
    have length := fitted small
    simpa [small, values] using length

theorem dropTop (fitted : stack.IsFitted) {count : Nat} (dropped : Stack.dropTop count stack = .ok rest) :
    rest.IsFitted := by
  induction count generalizing stack with
  | zero =>
      cases dropped
      exact fitted
  | succ count ih =>
      rw [Stack.dropTop] at dropped
      cases popped : stack.pop with
      | error error => simp [popped, bind, Except.bind] at dropped
      | ok result =>
          rw [popped] at dropped
          exact ih (fitted.pop popped) dropped

theorem replaceTop (fitted : stack.IsFitted) {count : Nat} {value : Value}
    (replaced : stack.replaceTop count value = .ok rest) : rest.IsFitted := by
  rw [Stack.replaceTop] at replaced
  cases required : stack.require count with
  | error error => simp [required, bind, Except.bind] at replaced
  | ok _ =>
      cases dropped : Stack.dropTop (count - 1) stack with
      | error error => simp [required, dropped, bind, Except.bind] at replaced
      | ok below =>
          simp only [required, dropped, bind, Except.bind, pure, Except.pure, Except.ok.injEq] at replaced
          subst replaced
          split
          · exact (fitted.dropTop dropped).push value
          · exact (fitted.dropTop dropped).setX value

theorem swap (fitted : stack.IsFitted) {first second : Nat} (swapped : stack.swap first second = .ok rest) :
    rest.IsFitted := by
  rw [Stack.swap] at swapped
  cases required : stack.require (max first second + 1) with
  | error error => simp [required, bind, Except.bind] at swapped
  | ok _ =>
      simp only [required, bind, Except.bind] at swapped
      split at swapped
      · cases swapped
        exact fun small => by simpa using fitted small
      · cases swapped
        exact fitted

theorem rollDown (fitted : stack.IsFitted) : stack.rollDown.IsFitted := by
  rcases values : stack.values with _ | ⟨x, rest⟩
  · simpa [Stack.rollDown, values] using fitted
  · intro small
    have length := fitted (by simpa [Stack.rollDown, values] using small)
    simpa [Stack.rollDown, values] using length

theorem rollUp (fitted : stack.IsFitted) : stack.rollUp.IsFitted := by
  rcases last : stack.values.getLast? with _ | bottom
  · simpa [Stack.rollUp, last] using fitted
  · intro small
    have length := fitted (by simpa [Stack.rollUp, last] using small)
    have filled : 0 < stack.values.length := by rw [length]; decide
    simp [Stack.rollUp, last]
    omega

end IsFitted

/-- The stack holds four values, and whatever an operation asks of four levels is there: it succeeds and
leaves four values again. -/
structure HoldsFour (stack : Stack) : Prop where
  length : stack.values.length = 4
  x : ∃ x, stack.x = .ok x
  push : ∀ value, (stack.push value).values.length = 4
  setX : ∀ value, (stack.setX value).values.length = 4
  pop : ∃ value rest, stack.pop = .ok (value, rest) ∧ rest.values.length = 4
  replaceTop : ∀ count ≤ 4, ∀ value, ∃ rest,
    stack.replaceTop count value = .ok rest ∧ rest.values.length = 4
  swap : ∀ first < 4, ∀ second < 4, ∃ rest, stack.swap first second = .ok rest ∧ rest.values.length = 4
  roll : stack.rollDown.values.length = 4 ∧ stack.rollUp.values.length = 4

namespace IsFitted

variable {stack rest : Stack}

theorem exists_pop (fitted : stack.IsFitted) (small : stack.isBig = false) :
    ∃ value rest, stack.pop = .ok (value, rest) ∧ rest.isBig = false := by
  obtain ⟨x, y, z, t, values⟩ := fitted.exists_values small
  exact ⟨x, { stack with values := [y, z, t, t] }, by simp [Stack.pop, values, small], small⟩

theorem exists_dropTop (fitted : stack.IsFitted) (small : stack.isBig = false) (count : Nat) :
    ∃ rest, Stack.dropTop count stack = .ok rest ∧ rest.isBig = false := by
  induction count generalizing stack with
  | zero => exact ⟨stack, rfl, small⟩
  | succ count ih =>
      obtain ⟨value, below, popped, smallBelow⟩ := fitted.exists_pop small
      obtain ⟨rest, dropped, smallRest⟩ := ih (fitted.pop popped) smallBelow
      refine ⟨rest, ?_, smallRest⟩
      rw [Stack.dropTop, popped]
      exact dropped

theorem isBig_setX (stack : Stack) (value : Value) : (stack.setX value).isBig = stack.isBig := by
  rw [Stack.setX]
  split <;> rfl

theorem exists_replaceTop (fitted : stack.IsFitted) (small : stack.isBig = false) {count : Nat}
    (within : count ≤ fourLevels) (value : Value) :
    ∃ rest, stack.replaceTop count value = .ok rest ∧ rest.isBig = false := by
  obtain ⟨below, dropped, smallBelow⟩ := fitted.exists_dropTop small (count - 1)
  have required : stack.require count = .ok () := by
    have length : stack.depth = fourLevels := fitted small
    rw [require, if_neg (by omega)]
  refine ⟨if count = 0 then below.push value else below.setX value, ?_, ?_⟩
  · simp [Stack.replaceTop, required, dropped, bind, Except.bind, pure, Except.pure]
  · split
    · exact smallBelow
    · rw [isBig_setX, smallBelow]

theorem exists_swap (fitted : stack.IsFitted) (small : stack.isBig = false) {first second : Nat}
    (isFirst : first < fourLevels) (isSecond : second < fourLevels) :
    ∃ rest, stack.swap first second = .ok rest ∧ rest.isBig = false := by
  have length : stack.values.length = fourLevels := fitted small
  have required : stack.require (max first second + 1) = .ok () := by
    rw [require, if_neg (by rw [depth]; omega)]
  have upper : first < stack.values.length := by omega
  have lower : second < stack.values.length := by omega
  let exchanged := (stack.values.set first stack.values[second]).set second stack.values[first]
  refine ⟨{ stack with values := exchanged }, ?_, small⟩
  simp [Stack.swap, required, upper, lower, exchanged, bind, Except.bind, pure, Except.pure]

/-- In four-level mode nothing is ever missing. -/
theorem holdsFour (fitted : stack.IsFitted) (small : stack.isBig = false) : stack.HoldsFour where
  length := fitted small
  x := by
    obtain ⟨x, y, z, t, values⟩ := fitted.exists_values small
    exact ⟨x, by simp [Stack.x, values]⟩
  push value := fitted.push value small
  setX value := fitted.setX value ((isBig_setX stack value).trans small)
  pop := by
    obtain ⟨value, rest, popped, smallRest⟩ := fitted.exists_pop small
    exact ⟨value, rest, popped, fitted.pop popped smallRest⟩
  replaceTop count within value := by
    obtain ⟨rest, replaced, smallRest⟩ := fitted.exists_replaceTop small within value
    exact ⟨rest, replaced, fitted.replaceTop replaced smallRest⟩
  swap first isFirst second isSecond := by
    obtain ⟨rest, swapped, smallRest⟩ := fitted.exists_swap small isFirst isSecond
    exact ⟨rest, swapped, fitted.swap swapped smallRest⟩
  roll := by
    obtain ⟨x, y, z, t, values⟩ := fitted.exists_values small
    simp [Stack.rollDown, Stack.rollUp, values]

end IsFitted

end Stack

end Keystroke
