import Mathlib
import Keystroke.Machine.Keyboard
import Keystroke.Proofs.FailedSamples.Handling
import Keystroke.Proofs.Listings.RoundTrip

/-!
# Idle machines

An idle machine waits for the next line or key, in run mode or in program mode. A number that is typed, or a
line that is inserted, leaves it idle.
-/

namespace Keystroke

open Keystroke.Action

/-- A machine that waits for the next line or key. -/
structure Machine.IsIdle (machine : Machine) : Prop where
  stopped : machine.isRunning = false
  noTask : machine.task = none
  noPending : machine.pending = none
  noPrompt : machine.prompt = none
  noEntry : machine.entry = none

namespace Action

variable {α : Type}

/-- An action leaves an idle machine idle, also when it fails. -/
def KeepsIdle (action : Action α) : Prop :=
  ∀ machine : Machine, machine.IsIdle → (action.on machine).2.IsIdle

theorem keepsIdle_lift (outcome : Outcome α) : KeepsIdle (liftM outcome) := by
  intro machine idle
  rwa [on_lift]

theorem KeepsIdle.bind {β : Type} {action : Action α} {next : α → Action β} (first : action.KeepsIdle)
    (second : ∀ result, (next result).KeepsIdle) : (action >>= next).KeepsIdle := by
  intro machine idle
  have kept := first machine idle
  rw [on_bind]
  split
  · next ran =>
    rw [ran] at kept
    exact second _ _ kept
  · next ran => rwa [ran] at kept

/-- An outcome that is used does not change the machine. -/
theorem isIdle_on_lift_bind {β : Type} {machine : Machine} (outcome : Outcome α) {next : α → Action β}
    (idle : machine.IsIdle) (second : ∀ result, ((next result).on machine).2.IsIdle) :
    ((liftM outcome >>= next : Action β).on machine).2.IsIdle := by
  rw [on_bind, on_lift]
  cases outcome with
  | error error => exact idle
  | ok result => exact second result

end Action

namespace Machine

variable {machine : Machine}

/-! ## What leaves a machine idle -/

section Keeping

variable (idle : machine.IsIdle)

include idle

theorem IsIdle.withStack (stack : Stack) : ({ machine with stack } : Machine).IsIdle := { idle with }

theorem IsIdle.withBindings (bindings : Variables) : ({ machine with bindings } : Machine).IsIdle :=
  { idle with }

theorem IsIdle.checkEditor : machine.checkEditor.IsIdle := by
  obtain ⟨editor, same, -⟩ := machine.exists_checkEditor
  rw [same]
  exact { idle with }

end Keeping

theorem keepsIdle_takePackage (level : Int) : (takePackage level).KeepsIdle := by
  intro machine idle
  rw [takePackage, on_bind_ok (on_get _)]
  split
  · exact keepsIdle_lift _ machine idle
  · rw [on_bind_ok (on_set _ _)]
    exact keepsIdle_lift _ _ (idle.withBindings _)

theorem keepsIdle_abandonFunction : abandonFunction.KeepsIdle := by
  intro machine idle
  rw [abandonFunction, on_bind_ok (on_get _)]
  refine (keepsIdle_takePackage _).bind ?_ machine idle
  exact fun _ _ idle => idle.withStack _

theorem IsIdle.dropCalls (idle : machine.IsIdle) (fuel : Nat) : (machine.dropCalls fuel).IsIdle := by
  induction fuel generalizing machine with
  | zero => exact idle
  | succ fuel ih =>
    rw [Machine.dropCalls]
    split
    · exact idle
    · apply ih
      have left : (if machine.callSavesStack then abandonFunction.attempt machine else machine).IsIdle := by
        split
        · exact keepsIdle_abandonFunction machine idle
        · exact idle
      exact { left with }

theorem IsIdle.clearReturns (idle : machine.IsIdle) : machine.clearReturns.IsIdle :=
  ((idle.dropCalls machine.returns.depth).withBindings _).checkEditor

theorem IsIdle.edited (idle : machine.IsIdle) (library : Library) (address : Option Nat) :
    ({ ({ machine with library : Machine }).clearReturns with address } : Machine).IsIdle := by
  have edited : ({ machine with library } : Machine).IsIdle := { idle with }
  exact { edited.clearReturns with }

theorem keepsIdle_insertLine (instruction : Instruction) : (insertLine instruction).KeepsIdle := by
  intro machine idle
  rw [insertLine, on_ite]
  split
  · exact idle
  · rw [on_bind_ok (on_get _)]
    refine isIdle_on_lift_bind _ idle fun program => isIdle_on_lift_bind _ idle fun library => ?_
    exact idle.edited library _

theorem IsIdle.stop (idle : machine.IsIdle) : machine.stop.IsIdle := by
  obtain ⟨_, _, _, same, -⟩ := machine.exists_stop_eq
  rw [same]
  exact ⟨rfl, rfl, idle.noPending, idle.noPrompt, idle.noEntry⟩

theorem IsIdle.handle (idle : machine.IsIdle) (error : Error) : (machine.handle error).IsIdle := by
  obtain ⟨kind, detail⟩ := error
  have reported : (machine.report ⟨kind, detail⟩).IsIdle :=
    ⟨idle.stopped, rfl, idle.noPending, idle.noPrompt, idle.noEntry⟩
  cases kind
  case yes | run | interruptible => exact idle
  case no =>
    rw [Machine.handle, handleWithin]
    simp only [idle.stopped, Bool.false_eq_true, if_false]
    exact idle
  case stop => exact idle.stop
  case crash => exact ⟨rfl, rfl, idle.noPending, idle.noPrompt, idle.noEntry⟩
  all_goals
    rw [Machine.handle, handleWithin]
    simp only [idle.stopped, Bool.not_false, if_true]
    exact reported

theorem IsIdle.performing (idle : machine.IsIdle) {action : Action Unit} (keeps : action.KeepsIdle) :
    (performing action machine).IsIdle := by
  have kept := keeps machine idle
  rw [Machine.performing]
  split
  · next ran => rwa [ran] at kept
  · next ran =>
    rw [ran] at kept
    exact kept.handle _

/-! ## Commands from the keyboard -/

/-- What a command leaves that is executed and does not fail. -/
theorem enterInstruction_of_performed {instruction : Instruction} {left : Machine}
    (stopped : machine.isRunning = false)
    (executed : machine.isProgramming = true → isAlwaysExecuted instruction.opcode = true)
    (allowed : instruction.opcode.isOnlyInPrograms = false)
    (noStep : instruction.opcode = .singleStep → machine.isProgramming = true)
    (performed : (perform instruction .none).on { machine with printsOnStop := machine.isTracing } =
      (.ok (), left)) :
    machine.enterInstruction instruction = if left.isBusy then left else left.stop := by
  have noInsertion : (machine.isProgramming && !isAlwaysExecuted instruction.opcode) = false := by
    simpa using executed
  have restricted : (instruction.opcode.isOnlyInPrograms &&
      decide (instruction.opcode ≠ .deleteLines)) = false := by simp [allowed]
  have oneLine : (decide (instruction.opcode = .singleStep) && !machine.isProgramming) = false := by
    simpa using noStep
  rw [enterInstruction, if_neg (Bool.eq_false_iff.mp noInsertion), executeTyped]
  dsimp only
  rw [if_neg (Bool.eq_false_iff.mp stopped), if_neg (Bool.eq_false_iff.mp restricted),
    if_neg (Bool.eq_false_iff.mp oneLine), performed]
  rfl

/-! ## Lines that are entered -/

theorem finishEntry_none (none : machine.entry = none) : finishEntry.on machine = (.ok (), machine) := by
  rw [finishEntry, on_bind_ok (on_get _), none]
  rfl

/-- The words that do something of their own where there is no question. -/
def modeWords : List String := ["PRGM", "R/S", "EXIT"]

theorem enter_command (noPrompt : machine.prompt = none) (noEntry : machine.entry = none) {line : String}
    (trimmed : Text.IsTrimmed line.toList) (noWord : ∀ word ∈ modeWords, isWord line.toList word = false) :
    machine.enter line = machine.enterCommand line := by
  have program := noWord "PRGM" (by decide)
  have run := noWord "R/S" (by decide)
  have exit := noWord "EXIT" (by decide)
  rw [enter, Text.trim_eq_self trimmed, noPrompt, finishEntry_none noEntry]
  simp only [program, run, exit, Bool.false_eq_true, if_false, String.ofList_toList]

theorem enter_parsed (idle : machine.IsIdle) {line : String}
    (trimmed : Text.IsTrimmed line.toList) (noWord : ∀ word ∈ modeWords, isWord line.toList word = false) :
    machine.enter line = machine.enterParsed (TypedLine.parse line) := by
  rw [enter_command idle.noPrompt idle.noEntry trimmed noWord, enterCommand, idle.noPending]

/-! ## Numbers -/

theorem isSolid_of_number? {text : List Char} {value : Binary64}
    (denotes : TypedLine.number? text = some value) : Text.IsSolid text := by
  intro character member
  have code := (TypedLine.code_of_number? denotes).2 character member
  exact Text.isBlank_eq_false (lt_trans (by decide) code.1) code.2

/-- A number begins with no letter. -/
theorem isWord_of_number? {text : List Char} {value : Binary64}
    (denotes : TypedLine.number? text = some value) : ∀ word ∈ modeWords, isWord text word = false := by
  cases text with
  | nil => cases denotes
  | cons first rest =>
    have begins : Decimal.isDigit first = true ∨ first ∈ ['.', '-', '+'] := by
      rw [TypedLine.number?] at denotes
      split at denotes
      · next numeral => simpa using (Bool.and_eq_true_iff.mp numeral).1
      · cases denotes
    have low : first.toUpper.toNat < 58 := by
      rcases begins with digit | mark
      · rw [Decimal.toUpper_of_isDigit digit]
        have := Decimal.code_of_isDigit digit
        omega
      · simp only [List.mem_cons, List.not_mem_nil, or_false] at mark
        obtain rfl | rfl | rfl := mark <;> decide
    have differs (letter : Char) (high : 58 ≤ letter.toNat) (word : List Char) :
        Text.upper (first :: rest) ≠ letter :: word := fun same => by
      obtain rfl := (List.cons.inj same).1
      omega
    intro word isWord
    rw [Machine.isWord, decide_eq_false_iff_not]
    simp only [modeWords, List.mem_cons, List.not_mem_nil, or_false] at isWord
    obtain rfl | rfl | rfl := isWord <;> exact differs _ (by decide) _

/-- The literal of a number that was typed. -/
def literal (value : Binary64) (text : List Char) : Instruction :=
  ⟨.number, Argument.typedLiteral value (some (String.ofList text))⟩

theorem enter_number (idle : machine.IsIdle) {text : List Char} {value : Binary64}
    (denotes : TypedLine.number? text = some value) :
    machine.enter (String.ofList text) = (true, machine.enterInstruction (literal value text)) := by
  have trimmed := (isSolid_of_number? denotes).isTrimmed
  rw [enter_parsed idle (by rwa [String.toList_ofList])
    (by rw [String.toList_ofList]; exact isWord_of_number? denotes),
    TypedLine.parse_number trimmed denotes String.toList_ofList]
  rfl

/-- A number leaves the machine waiting for the next line or key. -/
theorem IsIdle.enterInstruction_literal (idle : machine.IsIdle) (value : Binary64) (text : List Char) :
    (machine.enterInstruction (literal value text)).IsIdle := by
  by_cases isProgramming : machine.isProgramming = true
  · rw [enterInstruction, if_pos (by rw [isProgramming]; rfl)]
    exact idle.performing (keepsIdle_insertLine _)
  · have pushed : ((({ machine with printsOnStop := machine.isTracing } : Machine).pushLifting
        (.real value)).afterCommand .number).IsIdle := { idle with }
    have noStep : (literal value text).opcode ≠ .singleStep := Opcode.noConfusion
    rw [enterInstruction_of_performed idle.stopped (fun programs => absurd programs isProgramming) rfl
      (fun isStep => absurd isStep noStep) rfl]
    split
    · exact pushed
    · exact pushed.stop

end Machine

end Keystroke
