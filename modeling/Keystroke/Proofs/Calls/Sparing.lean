import Mathlib
import Keystroke.Proofs.Calls.Performed

/-!
# Inputs that spare what calls keep

An input spares what calls keep if no command that is performed for it names a variable in which calls keep
something. What is performed for an input can be tested, and with it whether an input spares this.
-/

namespace Keystroke

open Keystroke.Action

/-- No command that is performed for an input names a variable in which calls keep something. -/
def Input.Spares (machine : Machine) (input : Input) : Prop := input.PerformsOnly Instruction.Spares machine

/-- All inputs of a sequence spare what calls keep when it is their turn. -/
def Input.AllSpare : List Input → Machine → Prop
  | [], _ => True
  | input :: rest, machine => input.Spares machine ∧ AllSpare rest (machine.after input)

namespace Machine

/-! ## Instructions can be tested -/

instance (machine : Machine) (argument : Argument) : Decidable (machine.Spares argument) :=
  match resolved : machine.resolve argument with
  | .ok (.direct (.text name)) =>
    decidable_of_iff (name ∉ reservedNames)
      ⟨fun unreserved _ same => by cases resolved.symm.trans same; exact unreserved,
        fun spares => spares name resolved⟩
  | .ok .none | .ok (.direct (.number _)) | .ok (.direct (.stack _)) | .ok (.indirect _)
  | .ok (.localLabel _) | .ok (.literal _ _) | .ok (.longText _) | .error _ =>
    .isTrue fun _ same => by cases resolved.symm.trans same

instance (instruction : Instruction) (machine : Machine) : Decidable (instruction.Spares machine) :=
  inferInstanceAs (Decidable (instruction.opcode.namesVariable = true →
    machine.Spares instruction.argument))

/-! ## Inputs can be tested -/

/-- What holds of the machine that an action leaves can be tested. -/
instance (action : Action Unit) (machine : Machine) (property : Machine → Prop)
    [∀ left, Decidable (property left)] :
    Decidable (∀ left, action.on machine = (.ok (), left) → property left) :=
  match ran : action.on machine with
  | (.ok (), left) =>
    decidable_of_iff (property left)
      ⟨fun holds _ same => by cases same; exact holds, fun all => all left rfl⟩
  | (.error _, _) => .isTrue fun _ same => by cases same

section

variable (kind : Instruction → Machine → Prop) [∀ instruction machine, Decidable (kind instruction machine)]

instance (machine : Machine) : Decidable (machine.StepsOnly kind) :=
  match found : machine.library.fetch machine.program (machine.address.getD 0) true with
  | .ok fetched =>
    decidable_of_iff (kind fetched.1.instruction machine)
      ⟨fun holds _ same => by cases found.symm.trans same; exact holds, fun all => all fetched found⟩
  | .error _ => .isTrue fun _ same => by cases found.symm.trans same

instance decidableTurnsOnly : (turns : Nat) → (machine : Machine) → Decidable (machine.TurnsOnly kind turns)
  | 0, _ => .isTrue trivial
  | turns + 1, machine =>
    have := decidableTurnsOnly turns machine.turn
    inferInstanceAs (Decidable (machine.isBusy = true → machine.isInterrupted = false →
      machine.awaitsKey = false → (machine.task = none → machine.StepsOnly kind) ∧
        (machine.turn.hasNews = false → TurnsOnly kind turns machine.turn)))

instance (instruction : Instruction) (machine : Machine) :
    Decidable (machine.TypedOnly kind instruction) :=
  inferInstanceAs (Decidable (machine.isRunning = false →
    (instruction.opcode.isOnlyInPrograms && instruction.opcode ≠ .deleteLines) = false →
      if instruction.opcode = .singleStep && !machine.isProgramming then machine.StepsOnly kind
      else kind instruction machine))

instance (instruction : Instruction) (machine : Machine) :
    Decidable (machine.EnteredOnly kind instruction) :=
  inferInstanceAs (Decidable ((machine.isProgramming && !isAlwaysExecuted instruction.opcode) = false →
    machine.TypedOnly kind instruction))

instance (machine : Machine) : (parsed : Outcome TypedLine) → Decidable (machine.ParsedOnly kind parsed)
  | .ok (.complete instruction) => inferInstanceAs (Decidable (machine.EnteredOnly kind instruction))
  | .ok .empty | .ok (.pending _) | .error _ => .isTrue trivial

instance (prompt : Prompt) (line : String) (machine : Machine) :
    Decidable (machine.AnswersOnly kind prompt line) :=
  inferInstanceAs (Decidable (∀ answered,
    (do if !line.isEmpty then setX (← answeredValue line) : Action Unit).on
      { machine with prompt := none } = (.ok (), answered) → kind ⟨.store, prompt.argument⟩ answered))

instance (opcode : Opcode) (line : String) (machine : Machine) :
    Decidable (machine.CompletesOnly kind opcode line) :=
  inferInstanceAs (Decidable (({ machine with pending := none, pendingDigits := [] } :
    Machine).ParsedOnly kind (TypedLine.parseArgument opcode line)))

instance (line : String) (machine : Machine) : Decidable (machine.CommandsOnly kind line) :=
  match waits : machine.pending with
  | some opcode => decidable_of_iff (machine.CompletesOnly kind opcode line) (by rw [CommandsOnly, waits])
  | none => decidable_of_iff (machine.ParsedOnly kind (TypedLine.parse line)) (by rw [CommandsOnly, waits])

instance (line : String) (machine : Machine) : Decidable (machine.LinesOnly kind line) :=
  let text := Text.trim line.toList
  match asks : machine.prompt with
  | some prompt =>
    decidable_of_iff (isWord text "EXIT" = false → machine.AnswersOnly kind prompt (String.ofList text))
      (by rw [LinesOnly, asks])
  | none =>
    decidable_of_iff (isWord text "EXIT" = false → isWord text "PRGM" = false →
        isWord text "R/S" = false →
          ∀ left, finishEntry.on machine = (.ok (), left) → left.CommandsOnly kind (String.ofList text))
      (by rw [LinesOnly, asks])

instance (key : Key) (machine : Machine) : Decidable (machine.KeysOnly kind key) :=
  match waits : machine.pending with
  | some opcode =>
    decidable_of_iff ((machine.isRunning || machine.task == some .awaitingKey) = false →
      (key.code = Key.enter →
        machine.CompletesOnly kind opcode (String.ofList machine.pendingDigits)) ∧
        ∀ digit ∈ Key.digit? key.code,
          machine.CompletesOnly kind opcode (String.ofList (machine.pendingDigits ++ [digit])))
      (by rw [KeysOnly, waits])
  | none =>
    decidable_of_iff ((machine.isRunning || machine.task == some .awaitingKey) = false →
      ∀ opcode ∈ key.opcode?, ∀ left, finishEntry.on machine = (.ok (), left) →
        left.EnteredOnly kind (.plain opcode))
      (by rw [KeysOnly, waits])

instance decidablePerformsOnly (machine : Machine) :
    (input : Input) → Decidable (input.PerformsOnly kind machine)
  | .enter line => inferInstanceAs (Decidable (machine.LinesOnly kind line))
  | .press key => inferInstanceAs (Decidable (machine.KeysOnly kind key))
  | .execute turns => inferInstanceAs (Decidable (machine.hasNews = false → machine.TurnsOnly kind turns))
  | .interrupt | .draw _ => .isTrue trivial

end

instance (machine : Machine) (input : Input) : Decidable (input.Spares machine) :=
  inferInstanceAs (Decidable (input.PerformsOnly Instruction.Spares machine))

end Machine

instance decidableAllSpare : (inputs : List Input) → (machine : Machine) →
    Decidable (Input.AllSpare inputs machine)
  | [], _ => .isTrue trivial
  | input :: rest, machine =>
    have := decidableAllSpare rest (machine.after input)
    inferInstanceAs (Decidable (input.Spares machine ∧ Input.AllSpare rest (machine.after input)))

end Keystroke
