import Mathlib
import Keystroke.Proofs.Inputs
import Keystroke.StateFile.Reader

/-!
# Four levels in every reachable machine

Whatever a host enters, presses, lets the machine do, loads or resets: a stack in four-level mode holds
exactly four values, so no operation in this mode ever finds an empty stack.
-/

namespace Keystroke

/-! ## Files -/

namespace StateFile

namespace Reader

variable {α β : Type} {property : α → Prop} {final : β → Prop}

/-- Whatever a reader reads has a property. -/
def Yields (reader : Reader α) (property : α → Prop) : Prop :=
  ∀ input value rest, reader.run input = .ok (value, rest) → property value

theorem yields_pure {value : α} (holds : property value) : (pure value : Reader α).Yields property := by
  rintro input value rest read
  cases read
  exact holds

theorem Yields.bind {reader : Reader α} {next : α → Reader β} (yields : reader.Yields property)
    (yieldsNext : ∀ value, property value → (next value).Yields final) :
    (reader >>= next).Yields final := by
  intro input value rest read
  rw [StateT.run_bind] at read
  cases first : reader.run input with
  | error damage =>
      rw [first] at read
      cases read
  | ok result =>
      rw [first] at read
      exact yieldsNext result.1 (yields input result.1 result.2 first) result.2 value rest read

/-- What comes first does not matter. -/
theorem yields_then {reader : Reader α} {next : α → Reader β}
    (yieldsNext : ∀ value, (next value).Yields final) : (reader >>= next).Yields final := by
  have any : reader.Yields fun _ => True := fun _ _ _ _ => trivial
  exact any.bind fun value _ => yieldsNext value

/-- A stack that is read is fitted, whatever the file says. -/
theorem yields_stack (context : ReaderContext) : (stack context).Yields Stack.IsFitted := by
  have reads (isBig : Bool) : (do
      let depth ← word 4
      require (isBig || depth == Stack.fourLevels)
      return .ofValues isBig (← many (value context) depth).reverse : Reader Stack).Yields
        Stack.IsFitted :=
    yields_then fun depth => yields_then fun _ => yields_then fun values =>
      yields_pure (Stack.isFitted_ofValues isBig values.reverse)
  rw [stack]
  split
  · exact yields_then reads
  · exact yields_then reads

theorem yields_body (context : ReaderContext) :
    (body context).Yields fun machine => machine.stack.IsFitted := by
  rw [body]
  -- The stack comes behind fifteen other parts of the machine.
  iterate 15 refine yields_then fun _ => ?_
  refine (yields_stack context).bind fun stack fitted => ?_
  iterate 12 refine yields_then fun _ => ?_
  exact yields_pure fitted

theorem yields_file (context : ReaderContext) :
    (file context).Yields fun machine => machine.stack.IsFitted := by
  rw [file]
  iterate 5 refine yields_then fun _ => ?_
  refine (yields_body context).bind fun machine fitted => ?_
  refine yields_then fun _ => yields_pure ?_
  exact (Machine.Evolves.refl true machine).checkEditor.isFitted fitted

end Reader

theorem isFitted_read {version : Nat} {bytes : List UInt8} {machine : Machine}
    (read : read? version bytes = some machine) : machine.stack.IsFitted := by
  rw [read?] at read
  split at read
  · next found left ran =>
      cases read
      exact Reader.yields_file _ _ _ _ ran
  · obtain ⟨result, ran, rfl⟩ := Option.map_eq_some_iff.mp read
    cases outcome : (Reader.file ⟨version, true⟩).run { bytes } with
    | error damage => simp [outcome, Except.toOption] at ran
    | ok found =>
        obtain rfl : found = result := by simpa [outcome, Except.toOption] using ran
        exact Reader.yields_file _ _ _ _ outcome
  · cases read

theorem isFitted_load {machine : Machine} (fitted : machine.stack.IsFitted) (version : Nat)
    (bytes : List UInt8) (generator : Generator) :
    (load version bytes generator machine).2.stack.IsFitted := by
  rw [load]
  split
  · exact fitted
  split
  · next read found => exact (isFitted_read found : read.stack.IsFitted)
  · exact Stack.isFitted_initial

end StateFile

namespace Machine

/-! ## Reachable machines -/

/-- The machines that a host, whatever its memory is, gets from a new one by inputs, by files, whatever their
bytes are and whether or not they are accepted, and by resets. -/
inductive IsHosted : Machine → Prop
  | new (memory : Nat) (generator : Generator) : IsHosted (new memory generator)
  | after {machine : Machine} (hosted : IsHosted machine) (input : Input) : IsHosted (machine.after input)
  | loaded {machine : Machine} (hosted : IsHosted machine) (version : Nat) (bytes : List UInt8)
    (generator : Generator) : IsHosted (StateFile.load version bytes generator machine).2
  | reset {machine : Machine} (hosted : IsHosted machine) (generator : Generator) :
    IsHosted (machine.reset generator)

theorem IsHosted.initial (generator : Generator) : (initial generator).IsHosted := .new Grid.sizeLimit generator

variable {machine : Machine}

theorem isFitted_after (fitted : machine.stack.IsFitted) (input : Input) :
    (machine.after input).stack.IsFitted := by
  by_cases silent : input = .interrupt
  · rw [silent, after, interrupt]
    split
    · exact fitted
    · exact fitted
  · exact (evolves_after machine silent).isFitted fitted

theorem IsHosted.isFitted (hosted : machine.IsHosted) : machine.stack.IsFitted := by
  induction hosted with
  | new memory generator => exact Stack.isFitted_initial
  | after hosted input ih => exact isFitted_after ih input
  | loaded hosted version bytes generator ih => exact StateFile.isFitted_load ih version bytes generator
  | reset hosted generator ih => exact Stack.isFitted_initial

/-- The stack holds four values while it is in four-level mode. -/
def HasFourLevels (machine : Machine) : Prop :=
  machine.stack.isBig = false → machine.stack.HoldsFour

/-- In every machine that a host gets, a stack in four-level mode holds exactly four values, and every
operation finds what it asks of them. This is so as well where a command, a line or unfinished work has
ended and an error is still to be handled, and after the handling of any error. -/
theorem IsHosted.hasFourLevels (hosted : machine.IsHosted) :
    machine.HasFourLevels ∧
    (∀ instruction target, ((perform instruction target).on machine).2.HasFourLevels) ∧
    (step.on machine).2.HasFourLevels ∧
    (∀ task, ((continueTask task).on machine).2.HasFourLevels) ∧
    ∀ error, (machine.handle error).HasFourLevels := by
  have fitted := hosted.isFitted
  have lasting := isLasting_evolves machine
  have here : machine.Evolves true machine := .refl true machine
  exact ⟨fitted.holdsFour,
    fun instruction target => ((lasting.perform instruction target here).isFitted fitted).holdsFour,
    ((lasting.step here).isFitted fitted).holdsFour,
    fun task => ((lasting.continueTask task here).isFitted fitted).holdsFour,
    fun error => ((lasting.handle here error).isFitted fitted).holdsFour⟩

theorem IsHosted.afterAll (hosted : machine.IsHosted) (inputs : List Input) :
    (inputs.foldl Machine.after machine).IsHosted := by
  induction inputs generalizing machine with
  | nil => exact hosted
  | cons input inputs ih => exact ih (hosted.after input)

/-- Key in a five and a three, and add them. -/
def keyedSum : Machine :=
  [Input.press ⟨false, 25⟩, .press ⟨false, Key.enter⟩, .press ⟨false, 31⟩, .press ⟨false, 37⟩].foldl after
    (initial default)

/-- The sum has taken two values off the stack, and there are four levels as before. -/
theorem hasFourLevels_keyedSum :
    keyedSum.IsHosted ∧ keyedSum.stack.isBig = false ∧ keyedSum.HasFourLevels := by
  have hosted : keyedSum.IsHosted := (IsHosted.initial default).afterAll _
  exact ⟨hosted, by decide +kernel, hosted.hasFourLevels.1⟩

end Machine

end Keystroke
