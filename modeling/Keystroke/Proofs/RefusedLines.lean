import Mathlib
import Keystroke.Proofs.Courses.Failing

/-!
# Lines that are refused while a program runs

While a program runs, no line is executed but those that stop it. One that cannot be read, or is a command, is refused
with an error, which is dealt with like one of the program: unless it is ignored or taken by a search, the program
stops at the line that was executed last. Nothing else is touched.
-/

namespace Keystroke

open Keystroke.Action

namespace Machine

variable {machine : Machine} {line : String} {error : Error}

/-- What a line is read as: a command, or the argument of the command that waits for one. -/
def reading (machine : Machine) (line : String) : Outcome TypedLine :=
  match machine.pending with
  | some opcode => TypedLine.parseArgument opcode (String.ofList (Text.trim line.toList))
  | none => TypedLine.parse (String.ofList (Text.trim line.toList))

/-- Why a line is refused while a program runs. -/
inductive RefusesLine (machine : Machine) (line : String) : Error → Prop
  | misread {error : Error} (reads : machine.reading line = .error error) : RefusesLine machine line error
  | command {instruction : Instruction} (reads : machine.reading line = .ok (.complete instruction)) :
      RefusesLine machine line ⟨.restrictedOperation, "PROGRAM RUNNING"⟩

/-- A line is none of the words for what keys do. -/
def IsNoWord (line : String) : Prop :=
  ∀ word ∈ ["PRGM", "R/S", "EXIT"], isWord (Text.trim line.toList) word = false

/-- A machine whose pending command has been taken up. -/
def withoutPending (machine : Machine) : Machine :=
  { machine with
    pending := none
    pendingDigits := if machine.pending.isSome then [] else machine.pendingDigits }

theorem enter_eq_enterParsed (noPrompt : machine.prompt = none) (noEntry : machine.entry = none)
    (noWord : IsNoWord line) :
    machine.enter line = machine.withoutPending.enterParsed (machine.reading line) := by
  have finished : finishEntry.on machine = (.ok (), machine) := by
    rw [finishEntry, on_bind_ok (on_get _), noEntry]
    rfl
  have none (word : String) (member : word ∈ ["PRGM", "R/S", "EXIT"]) := noWord word member
  rw [enter, noPrompt]
  dsimp only
  rw [finished]
  dsimp only
  rw [none "PRGM" (by simp), none "R/S" (by simp), none "EXIT" (by simp)]
  rw [if_neg Bool.false_ne_true, if_neg Bool.false_ne_true, if_neg Bool.false_ne_true, enterCommand, reading]
  cases pending : machine.pending with
  | some opcode =>
      rw [withoutPending, pending]
      rfl
  | none =>
      have same : machine.withoutPending = machine := by
        simp only [withoutPending, pending, Option.isSome_none]
        rw [← pending]
        rfl
      rw [same]

/-- A refusal is dealt with as an error of the program. -/
theorem enter_of_refused (running : machine.isRunning = true) (executing : machine.isProgramming = false)
    (noPrompt : machine.prompt = none) (noEntry : machine.entry = none) (noWord : IsNoWord line)
    (refuses : machine.RefusesLine line error) :
    (machine.enter line).2 = machine.withoutPending.handle error := by
  rw [enter_eq_enterParsed noPrompt noEntry noWord]
  cases refuses with
  | misread reads =>
      rw [reads]
      rfl
  | @command instruction reads =>
      have programming : machine.withoutPending.isProgramming = false := executing
      have runs : machine.withoutPending.isRunning = true := running
      rw [reads, enterParsed, enterInstruction, programming, executeTyped, runs]
      rfl

/-- No refusal is a signal. -/
theorem RefusesLine.genuine (refuses : machine.RefusesLine line error) : error.kind.isSignal = false := by
  cases refuses with
  | command => rfl
  | misread reads =>
      obtain ⟨kinds, -⟩ : TypedLine.IsMisreading error := by
        rw [reading] at reads
        split at reads
        · exact TypedLine.isMisreading_of_parseArgument reads
        · exact TypedLine.isMisreading_of_parse reads
      simp only [List.mem_cons, List.not_mem_nil, or_false] at kinds
      rcases kinds with kind | kind | kind | kind <;> rw [kind] <;> rfl

/-- What a refused line leaves of a machine whose program it stops. -/
structure LeavesUntouched (machine after : Machine) (error : Error) : Prop where
  stops : machine.StopsWith after error
  /-- The place is that of the line that was executed last. No command waits for an argument any more, and X may have
  been printed. -/
  untouched : ∃ pendingDigits printsOnStop calls, after = { machine with
    isRunning := false
    address := machine.executed
    task := none
    lastError := error.kind.code
    pending := none
    pendingDigits
    printsOnStop
    calls
    errors := after.errors }

/-- A line that is refused while a program runs stops the program, if errors are not ignored and no search takes
this one, and touches nothing else. -/
theorem enter_refused_leavesUntouched (running : machine.isRunning = true) (executing : machine.isProgramming = false)
    (noPrompt : machine.prompt = none) (noEntry : machine.entry = none) (noWord : IsNoWord line)
    (refuses : machine.RefusesLine line error) (heeds : machine.flags.get Flags.errorIgnored = false)
    (notTaken : (error.kind.isFailedSample && machine.isSolving) = false) :
    machine.LeavesUntouched (machine.enter line).2 error := by
  have handled : (machine.enter line).2 =
      ({ machine.withoutPending with address := machine.executed } : Machine).stop.report error :=
    (enter_of_refused running executing noPrompt noEntry noWord refuses).trans
      (handle_of_not_taken refuses.genuine running heeds notTaken)
  have errors : machine.withoutPending.errors = machine.errors := rfl
  obtain ⟨stops, -⟩ := stopsWith_report errors error machine.executed
  rw [handled]
  refine ⟨stops, ?_⟩
  obtain ⟨printsOnStop, calls, printing, same, -⟩ :=
    ({ machine.withoutPending with address := machine.executed } : Machine).exists_stop_eq
  rw [same]
  exact ⟨_, printsOnStop, calls, rfl⟩

/-- Run a program up to its third line. -/
def runningInputs : List Input :=
  ["PRGM", "LBL \"A\"", "1", "2", "RTN", "PRGM", "XEQ \"A\""].map .enter ++ [.execute 2]

def amidProgram : Machine := runningInputs.foldl after (initial default)

/-- A line that is no command: the program stops at the line before, which had been executed. -/
theorem enter_refused_amidProgram :
    (amidProgram.address = some 7 ∧ (amidProgram.enter "FOO").2.address = some 4) ∧
      amidProgram.LeavesUntouched (amidProgram.enter "FOO").2 ⟨.nonexistent, "UNKNOWN COMMAND"⟩ := by
  obtain ⟨places, running, executing, noPrompt, noEntry, noWord, misread, heeds⟩ :
      (amidProgram.address = some 7 ∧ (amidProgram.enter "FOO").2.address = some 4) ∧
        amidProgram.isRunning = true ∧ amidProgram.isProgramming = false ∧ amidProgram.prompt = none ∧
        amidProgram.entry = none ∧ IsNoWord "FOO" ∧
        amidProgram.reading "FOO" = .error ⟨.nonexistent, "UNKNOWN COMMAND"⟩ ∧
        amidProgram.flags.get Flags.errorIgnored = false := by
    unfold IsNoWord
    decide +kernel
  exact ⟨places, enter_refused_leavesUntouched running executing noPrompt noEntry noWord (.misread misread) heeds rfl⟩

end Machine

end Keystroke
