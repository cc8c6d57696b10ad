import Mathlib
import Keystroke.Machine.Keyboard
import Keystroke.Proofs.Calls.Commands

/-!
# What is performed for an input

A host enters lines, presses keys, lets the machine work and interrupts it. For each of these the machine
performs instructions, which may all be of some kind.
-/

namespace Keystroke

open Keystroke.Action

/-- What a host does with a machine. -/
inductive Input where
  | enter (line : String)
  | press (key : Key)
  /-- Let the machine work for a count of turns. -/
  | execute (turns : Nat)
  | interrupt
  /-- The source of random numbers has a generator ready. -/
  | draw (generator : Generator)

namespace Machine

/-- The machine after an input. -/
def after (machine : Machine) : Input → Machine
  | .enter line => (machine.enter line).2
  | .press key => machine.press key
  | .execute turns => (machine.execute turns).2
  | .interrupt => machine.interrupt
  | .draw generator => { machine with drawn := generator }

/-! ## Instructions of one kind -/

section

variable (kind : Instruction → Machine → Prop)

/-- The line at the current address is of a kind. -/
def StepsOnly (machine : Machine) : Prop :=
  ∀ fetched, machine.library.fetch machine.program (machine.address.getD 0) true = .ok fetched →
    kind fetched.1.instruction machine

/-- The lines that are executed in so many turns are of a kind. -/
def TurnsOnly : Nat → Machine → Prop
  | 0, _ => True
  | turns + 1, machine =>
    machine.isBusy = true → machine.isInterrupted = false → machine.awaitsKey = false →
      (machine.task = none → machine.StepsOnly kind) ∧
        (machine.turn.hasNews = false → TurnsOnly turns machine.turn)

/-- What is executed for an instruction from the keyboard is of a kind. -/
def TypedOnly (instruction : Instruction) (machine : Machine) : Prop :=
  machine.isRunning = false →
    (instruction.opcode.isOnlyInPrograms && instruction.opcode ≠ .deleteLines) = false →
      if instruction.opcode = .singleStep && !machine.isProgramming then machine.StepsOnly kind
      else kind instruction machine

/-- An instruction that is entered, and not inserted into a program, is of a kind. -/
def EnteredOnly (instruction : Instruction) (machine : Machine) : Prop :=
  (machine.isProgramming && !isAlwaysExecuted instruction.opcode) = false →
    machine.TypedOnly kind instruction

/-- What a line was read as is of a kind. -/
def ParsedOnly (machine : Machine) : Outcome TypedLine → Prop
  | .ok (.complete instruction) => machine.EnteredOnly kind instruction
  | _ => True

/-- The answer to a question is stored by an instruction of a kind. -/
def AnswersOnly (prompt : Prompt) (line : String) (machine : Machine) : Prop :=
  ∀ answered, (do if !line.isEmpty then setX (← answeredValue line) : Action Unit).on
    { machine with prompt := none } = (.ok (), answered) → kind ⟨.store, prompt.argument⟩ answered

/-- A command that is completed by a line is of a kind. -/
def CompletesOnly (opcode : Opcode) (line : String) (machine : Machine) : Prop :=
  ({ machine with pending := none, pendingDigits := [] } : Machine).ParsedOnly kind
    (TypedLine.parseArgument opcode line)

/-- A command, or the one that is pending, is of a kind. -/
def CommandsOnly (line : String) (machine : Machine) : Prop :=
  match machine.pending with
  | some opcode => machine.CompletesOnly kind opcode line
  | none => machine.ParsedOnly kind (TypedLine.parse line)

/-- What a line is an answer to, or enters, is of a kind. -/
def LinesOnly (line : String) (machine : Machine) : Prop :=
  let text := Text.trim line.toList
  isWord text "EXIT" = false →
    match machine.prompt with
    | some prompt => machine.AnswersOnly kind prompt (String.ofList text)
    | none =>
      isWord text "PRGM" = false → isWord text "R/S" = false →
        ∀ left, finishEntry.on machine = (.ok (), left) →
          left.CommandsOnly kind (String.ofList text)

/-- The command that a key enters or completes is of a kind. -/
def KeysOnly (key : Key) (machine : Machine) : Prop :=
  (machine.isRunning || machine.task == some .awaitingKey) = false →
    match machine.pending with
    | some opcode =>
      (key.code = Key.enter →
        machine.CompletesOnly kind opcode (String.ofList machine.pendingDigits)) ∧
        ∀ digit ∈ Key.digit? key.code,
          machine.CompletesOnly kind opcode (String.ofList (machine.pendingDigits ++ [digit]))
    | none =>
      ∀ opcode ∈ key.opcode?, ∀ left, finishEntry.on machine = (.ok (), left) →
        left.EnteredOnly kind (.plain opcode)

end

end Machine

/-- Every instruction that is performed for an input is of a kind. -/
def Input.PerformsOnly (kind : Instruction → Machine → Prop) (machine : Machine) : Input → Prop
  | .enter line => machine.LinesOnly kind line
  | .press key => machine.KeysOnly kind key
  | .execute turns => machine.hasNews = false → machine.TurnsOnly kind turns
  | .interrupt | .draw _ => True

/-! ### Instructions of a wider kind -/

namespace Machine

variable {kind wider : Instruction → Machine → Prop}
  (widen : ∀ instruction machine, kind instruction machine → wider instruction machine)
  {machine : Machine}

include widen

theorem StepsOnly.imp (only : machine.StepsOnly kind) : machine.StepsOnly wider :=
  fun fetched found => widen _ _ (only fetched found)

theorem TurnsOnly.imp {turns : Nat} (only : machine.TurnsOnly kind turns) :
    machine.TurnsOnly wider turns := by
  induction turns generalizing machine with
  | zero => trivial
  | succ turns ih =>
      intro busy goesOn awake
      obtain ⟨first, rest⟩ := only busy goesOn awake
      exact ⟨fun idle => (first idle).imp widen, fun quiet => ih (rest quiet)⟩

theorem EnteredOnly.imp {instruction : Instruction} (only : machine.EnteredOnly kind instruction) :
    machine.EnteredOnly wider instruction := by
  intro executes idle allowed
  have only := only executes idle allowed
  split
  · next steps =>
      rw [if_pos steps] at only
      exact only.imp widen
  · next performs =>
      rw [if_neg performs] at only
      exact widen _ _ only

theorem ParsedOnly.imp {parsed : Outcome TypedLine} (only : machine.ParsedOnly kind parsed) :
    machine.ParsedOnly wider parsed := by
  rcases parsed with error | _ | instruction | opcode
  · trivial
  · trivial
  · exact EnteredOnly.imp widen only
  · trivial

theorem CompletesOnly.imp {opcode : Opcode} {line : String}
    (only : machine.CompletesOnly kind opcode line) : machine.CompletesOnly wider opcode line := by
  rw [CompletesOnly] at only ⊢
  exact only.imp widen

theorem CommandsOnly.imp {line : String} (only : machine.CommandsOnly kind line) :
    machine.CommandsOnly wider line := by
  rw [CommandsOnly] at only ⊢
  split
  · next opcode waits =>
      rw [waits] at only
      exact CompletesOnly.imp widen only
  · next idle =>
      rw [idle] at only
      exact ParsedOnly.imp widen only

theorem LinesOnly.imp {line : String} (only : machine.LinesOnly kind line) :
    machine.LinesOnly wider line := by
  intro notExit
  have only := only notExit
  split
  · next prompt asks =>
      rw [asks] at only
      exact fun answered ran => widen _ _ (only answered ran)
  · next free =>
      rw [free] at only
      exact fun notProgram notRun left ran =>
        CommandsOnly.imp widen (only notProgram notRun left ran)

theorem KeysOnly.imp {key : Key} (only : machine.KeysOnly kind key) : machine.KeysOnly wider key := by
  intro free
  have only := only free
  split
  · next opcode waits =>
      rw [waits] at only
      exact ⟨fun isEnter => CompletesOnly.imp widen (only.1 isEnter),
        fun digit isDigit => CompletesOnly.imp widen (only.2 digit isDigit)⟩
  · next idle =>
      rw [idle] at only
      exact fun opcode isCommand left ran => EnteredOnly.imp widen (only opcode isCommand left ran)

end Machine

theorem Input.PerformsOnly.imp {kind wider : Instruction → Machine → Prop}
    (widen : ∀ instruction machine, kind instruction machine → wider instruction machine)
    {machine : Machine} {input : Input} (only : input.PerformsOnly kind machine) :
    input.PerformsOnly wider machine := by
  cases input with
  | enter line => exact Machine.LinesOnly.imp widen only
  | press key => exact Machine.KeysOnly.imp widen only
  | execute turns => exact fun quiet => Machine.TurnsOnly.imp widen (only quiet)
  | interrupt | draw generator => trivial

/-! ### Instructions of any kind -/

namespace Machine

variable {kind : Instruction → Machine → Prop} (all : ∀ instruction machine, kind instruction machine)
  (machine : Machine)

include all

theorem turnsOnly_of_forall (turns : Nat) : machine.TurnsOnly kind turns := by
  induction turns generalizing machine with
  | zero => trivial
  | succ turns ih => exact fun _ _ _ => ⟨fun _ _ _ => all _ _, fun _ => ih machine.turn⟩

theorem enteredOnly_of_forall (instruction : Instruction) : machine.EnteredOnly kind instruction := by
  intro _ _ _
  split
  · exact fun _ _ => all _ _
  · exact all _ _

theorem parsedOnly_of_forall (parsed : Outcome TypedLine) : machine.ParsedOnly kind parsed := by
  rcases parsed with error | _ | instruction | opcode
  · trivial
  · trivial
  · exact machine.enteredOnly_of_forall all instruction
  · trivial

theorem commandsOnly_of_forall (line : String) : machine.CommandsOnly kind line := by
  rw [CommandsOnly]
  split <;> exact parsedOnly_of_forall all _ _

theorem linesOnly_of_forall (line : String) : machine.LinesOnly kind line := by
  intro _
  split
  · exact fun _ _ => all _ _
  · exact fun _ _ left _ => left.commandsOnly_of_forall all _

theorem keysOnly_of_forall (key : Key) : machine.KeysOnly kind key := by
  intro _
  split
  · exact ⟨fun _ => parsedOnly_of_forall all _ _, fun _ _ => parsedOnly_of_forall all _ _⟩
  · exact fun _ _ left _ => left.enteredOnly_of_forall all _

end Machine

theorem Input.performsOnly_of_forall {kind : Instruction → Machine → Prop}
    (all : ∀ instruction machine, kind instruction machine) (machine : Machine) (input : Input) :
    input.PerformsOnly kind machine := by
  cases input with
  | enter line => exact machine.linesOnly_of_forall all line
  | press key => exact machine.keysOnly_of_forall all key
  | execute turns => exact fun _ => machine.turnsOnly_of_forall all turns
  | interrupt | draw generator => trivial

end Keystroke
