import Mathlib
import Keystroke.Machine.Keyboard
import Keystroke.Proofs.Storing

/-!
# Answers to questions

A line answers the question of a program, unless it is the word that takes the question back. The answer is
taken, so that X and the place that was asked for hold it, or it is refused. A refused line leaves the
machine as it was, but a value that could be read and not be stored stays in X.
-/

namespace Keystroke

open Keystroke.Action Keystroke.Outcome

/-! ## Errors of a line -/

namespace TypedLine

theorem isShown_unquote (text : List Char) : (unquote text).IsShown := by
  rw [unquote]
  split
  · split
    · exact isShown_ok _
    · exact rfl
  · exact rfl

theorem isShown_directArgument (text : List Char) : (directArgument text).IsShown := by
  rw [directArgument]
  refine ends_ite (fun _ => ?_) fun _ => ends_ite (fun _ => ?_) fun _ => ends_ite (fun _ => ?_) fun _ => ?_
  · refine (isShown_unquote _).bind fun name _ => ?_
    exact ends_ite (fun _ => isShown_fail rfl) fun _ => isShown_ok _
  · split
    · exact isShown_ok _
    · exact rfl
  · exact ends_ite (fun _ => isShown_ok _) fun _ => isShown_fail rfl
  · split
    · exact ends_ite (fun _ => isShown_ok _) fun _ => rfl
    · exact rfl

theorem isShown_argument (text : List Char) : (argument text).IsShown := by
  rw [argument]
  refine ends_ite (fun _ => ?_) fun _ => isShown_directArgument text
  refine (isShown_directArgument _).bind fun found _ => ?_
  split
  · exact isShown_ok _
  · exact rfl

theorem isShown_checkArgument (opcode : Opcode) (argument : Argument) :
    (checkArgument opcode argument).IsShown := by
  unfold checkArgument
  split
  · refine ends_ite (fun _ => isShown_fail rfl) fun _ => ?_
    split <;> first | exact rfl | exact isShown_ok _
  · exact rfl
  · exact rfl
  · exact rfl
  · exact ends_ite (fun _ => rfl) fun _ => isShown_ok _
  · exact isShown_ok _

theorem isShown_withArgument (opcode : Opcode) (text : List Char) : (withArgument opcode text).IsShown := by
  rw [withArgument]
  refine ends_ite (fun _ => isShown_ok _) fun _ => ?_
  split
  · exact rfl
  · exact (isShown_unquote text).bind fun _ _ => isShown_ok _
  · refine (isShown_argument text).bind fun found _ => ?_
    exact (isShown_checkArgument opcode found).bind fun _ _ => isShown_ok _

theorem isShown_parse (line : String) : (parse line).IsShown := by
  rw [parse]
  refine ends_ite (fun _ => isShown_ok _) fun _ => ends_ite (fun _ => ?_) fun _ => ?_
  · refine (isShown_unquote _).bind fun bytes _ => ?_
    exact ends_ite (fun _ => isShown_ok _) fun _ => isShown_ok _
  · split
    · exact isShown_ok _
    · split
      · exact isShown_withArgument _ _
      · exact rfl

end TypedLine

namespace Machine

variable {machine left : Machine} {prompt : Prompt} {text : List Char} {value : Value} {error : Error}

theorem isShown_answeredValue (line : String) : (answeredValue line).IsShown := by
  have ofText (bytes : List UInt8) : (Value.ofText bytes).IsShown :=
    ends_ite (fun _ => rfl) fun _ => isShown_ok _
  refine (TypedLine.isShown_parse line).bind fun found _ => ?_
  split
  · exact isShown_ok _
  · exact ofText _
  · exact ofText _
  · exact isShown_fail rfl

theorem isShown_x (stack : Stack) : stack.x.IsShown := by
  rw [Stack.x]
  split
  · exact isShown_fail rfl
  · exact isShown_ok _

/-- While no program runs, an error that is no signal is remembered and shown. -/
theorem handle_of_halted (halted : machine.isRunning = false) (shown : error.kind.isSignal = false) :
    machine.handle error = machine.report error := by
  obtain ⟨kind, detail⟩ := error
  cases kind
  case yes | no | stop | run | interruptible | crash => cases shown
  all_goals
    rw [handle, handleWithin]
    simp only [halted, Bool.not_false, if_true]

/-! ## The answer and its place -/

/-- The value that a trimmed line gives in answer to a question; an empty line gives X. -/
def givenAnswer (machine : Machine) (text : List Char) : Outcome Value :=
  if text.isEmpty then machine.stack.x else answeredValue (String.ofList text)

/-- The machine in which an answer is stored: the question is over, and the answer is in X. -/
def answering (machine : Machine) (value : Value) : Machine :=
  { machine with prompt := none, stack := machine.stack.setX value }

theorem isShown_givenAnswer (machine : Machine) (text : List Char) : (machine.givenAnswer text).IsShown :=
  ends_ite (fun _ => isShown_x machine.stack) fun _ => isShown_answeredValue _

/-- What a machine comes to when it takes a value as an answer. X and the place that the question is about hold
the value, and nothing else has changed but that the question is over and the program runs on. -/
structure TakesAnswer (machine : Machine) (prompt : Prompt) (text : List Char) (value : Value)
    (operand : Operand) (after : Machine) : Prop where
  read : machine.givenAnswer text = .ok value
  resolved : (machine.answering value).resolve prompt.argument = .ok (.direct operand)
  inX : after.stack.x = .ok value
  inPlace : after.recallOperand operand = .ok ((machine.answering value).heldAs operand value)
  others : ∃ left, (machine.answering value).Stores value operand left ∧
    after = { left.setFlag Flags.liftDisabled false with isRunning := true }
  asksNoMore : after.prompt = none

/-- What a machine comes to when it refuses an answer: it deals with the error as it was before, or with a
value in X that it has read and could not store. While no program runs, the error is remembered and shown. -/
inductive RefusesAnswer (machine : Machine) (prompt : Prompt) (text : List Char) (after : Machine) : Prop
  | unread {error : Error} (unread : machine.givenAnswer text = .error error)
      (handled : after = machine.handle error)
      (reported : machine.isRunning = false → after = machine.report error)
  | unstored {error : Error} {value : Value} (read : machine.givenAnswer text = .ok value)
      (refused : (store prompt.argument value).on (machine.answering value) =
        (.error error, machine.answering value))
      (handled : after = ({ machine with stack := machine.stack.setX value } : Machine).handle error)
      (reported : machine.isRunning = false →
        after = ({ machine with stack := machine.stack.setX value } : Machine).report error)

theorem isEmpty_ofList (text : List Char) : (String.ofList text).isEmpty = text.isEmpty := by
  rw [Bool.eq_iff_iff, String.isEmpty_iff, List.isEmpty_iff, String.ofList_eq_empty_iff]

/-- A line that gives no answer fails in the machine as it was. -/
theorem on_storeAnswer_unread (unread : machine.givenAnswer text = .error error) :
    (storeAnswer prompt (String.ofList text)).on { machine with prompt := none } =
      (.error error, { machine with prompt := none }) := by
  rw [storeAnswer, isEmpty_ofList]
  cases empty : text.isEmpty with
  | true =>
      rw [givenAnswer, if_pos empty] at unread
      simp only [Bool.not_true, Bool.false_eq_true, if_false]
      rw [on_bind_ok (on_get _), unread]
      rfl
  | false =>
      rw [givenAnswer, if_neg (by simp [empty])] at unread
      simp only [Bool.not_false, if_true, unread]
      rfl

/-- An answer is put in X before it is stored. -/
theorem on_storeAnswer_read (read : machine.givenAnswer text = .ok value) :
    (storeAnswer prompt (String.ofList text)).on { machine with prompt := none } =
      (store prompt.argument value >>= fun _ =>
        modify (·.setFlag Flags.liftDisabled false)).on (machine.answering value) := by
  rw [storeAnswer, isEmpty_ofList]
  cases empty : text.isEmpty with
  | true =>
      rw [givenAnswer, if_pos empty] at read
      simp only [Bool.not_true, Bool.false_eq_true, if_false]
      rw [on_bind_ok (on_get _), read, answering, Stack.setX_of_x read]
      rfl
  | false =>
      rw [givenAnswer, if_neg (by simp [empty])] at read
      simp only [Bool.not_false, if_true, read]
      have top : (machine.stack.setX value).x = .ok value := Stack.x_setX _ _
      rw [on_bind_ok (on_lift _ _), setX, on_bind_ok (on_modify _ _), on_bind_ok (on_get _), top]
      rfl

theorem takesAnswer_of_stores {operand : Operand} (read : machine.givenAnswer text = .ok value)
    (resolved : (machine.answering value).resolve prompt.argument = .ok (.direct operand))
    (stores : (machine.answering value).Stores value operand left) :
    machine.TakesAnswer prompt text value operand
      { left.setFlag Flags.liftDisabled false with isRunning := true } where
  read := read
  resolved := resolved
  inX := stores.x (Stack.x_setX _ _)
  inPlace := by
    rw [← stores.recallOperand]
    cases operand <;> rfl
  others := ⟨left, stores, rfl⟩
  asksNoMore := stores.prompt

/-- A line that is entered in answer to the question of a program is taken whole or refused. -/
theorem enter_answer (asked : machine.prompt = some prompt) (line : String)
    (answers : isWord (Text.trim line.toList) "EXIT" = false) :
    (∃ value operand, (machine.enter line).1 = true ∧
        machine.TakesAnswer prompt (Text.trim line.toList) value operand (machine.enter line).2) ∨
      (machine.enter line).1 = false ∧
        machine.RefusesAnswer prompt (Text.trim line.toList) (machine.enter line).2 := by
  have askedAgain (stack : Stack) :
      ({ machine with prompt := some prompt, stack } : Machine) = { machine with stack } := by
    rw [← asked]
  rw [enter, asked]
  dsimp only
  generalize Text.trim line.toList = text at answers
  rw [answerQuestion, answers]
  simp only [Bool.false_eq_true, if_false]
  cases read : machine.givenAnswer text with
  | error error =>
      have shown : error.kind.isSignal = false := by
        have found := isShown_givenAnswer machine text
        rwa [read] at found
      rw [on_storeAnswer_unread read]
      refine .inr ⟨rfl, ?_⟩
      dsimp only
      rw [askedAgain machine.stack]
      exact .unread read rfl fun halted => handle_of_halted halted shown
  | ok value =>
      rw [on_storeAnswer_read read, on_bind]
      rcases ends : (store prompt.argument value).on (machine.answering value) with ⟨error | _, left⟩
      · obtain ⟨rfl, shown⟩ := failsCleanly_store _ _ ends
        refine .inr ⟨rfl, ?_⟩
        dsimp only [answering]
        rw [askedAgain (machine.stack.setX value)]
        exact .unstored read ends rfl fun halted => handle_of_halted halted shown
      · obtain ⟨operand, resolved, stores⟩ := exists_stores ends
        exact .inl ⟨value, operand, rfl, takesAnswer_of_stores read resolved stores⟩

/-- The question for the value of a variable. -/
def promptFor (name : List UInt8) : Prompt := ⟨.direct (.text name), "?"⟩

/-- A new machine that was asked a question. -/
def asked (prompt : Prompt) : Machine := { initial default with prompt := some prompt }

/-- The letters from A to H, one more than a name can have. -/
def overlongName : List UInt8 := [65, 66, 67, 68, 69, 70, 71, 72]

/-- A variable can be given a value. One whose name is too long cannot, and the value stays in X. -/
theorem enter_answer_promptFor :
    (isWord (Text.trim "5".toList) "EXIT" = false ∧
      ∃ value operand, ((asked (promptFor [65])).enter "5").1 = true ∧
        (asked (promptFor [65])).TakesAnswer (promptFor [65]) (Text.trim "5".toList) value operand
          ((asked (promptFor [65])).enter "5").2) ∧
    ((asked (promptFor overlongName)).enter "5").1 = false ∧
      (asked (promptFor overlongName)).RefusesAnswer (promptFor overlongName) (Text.trim "5".toList)
        ((asked (promptFor overlongName)).enter "5").2 ∧
      ((asked (promptFor overlongName)).enter "5").2.stack.x = .ok (.real 5) := by
  have answers : isWord (Text.trim "5".toList) "EXIT" = false := by decide
  have isAsked (prompt : Prompt) : (asked prompt).prompt = some prompt := rfl
  have taken : ((asked (promptFor [65])).enter "5").1 = true := by decide +kernel
  have refused : ((asked (promptFor overlongName)).enter "5").1 = false := by decide +kernel
  have keepsValue : ((asked (promptFor overlongName)).enter "5").2.stack.x = .ok (.real 5) := by rfl
  have takes := enter_answer (isAsked (promptFor [65])) "5" answers
  have refuses := enter_answer (isAsked (promptFor overlongName)) "5" answers
  have takes := takes.resolve_right fun refused => by simp [taken] at refused
  have refuses := refuses.resolve_left fun ⟨_, _, taken, _⟩ => by simp [refused] at taken
  exact ⟨⟨answers, takes⟩, refused, refuses.2, keepsValue⟩

end Machine

end Keystroke
