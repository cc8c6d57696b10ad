import Mathlib
import Keystroke.Proofs.Evolution.Calls

/-!
# What programs, jumps and all commands leave

Editing a program and jumping in it drop calls, which puts back the modes of their callers' stacks. With this,
what a command leaves is known of every command, and whether it may move the course is known from its opcode.
-/

namespace Keystroke

open Keystroke.Action

namespace Machine

variable {moves : Bool} {start machine : Machine}

/-! ## Jumps -/

theorem evolves_goto (argument : Argument) (target : JumpTarget) : (goto argument target).Evolves true start := by
  refine evolves_get fun machine evolved => evolves_found fun place _ => ?_
  exact evolves_set { evolved.clearReturnsUnlessRunning with course := Bool.noConfusion }

theorem evolves_call (argument : Argument) (target : JumpTarget) : (call argument target).Evolves true start := by
  refine evolves_get fun machine evolved => evolves_found fun place _ => ?_
  obtain ⟨program, address⟩ := place
  have enters : (modify fun machine : Machine =>
      { machine with isRunning := true, program, address := some address } : Action Unit).Evolves true start :=
    evolves_modify fun _ evolved => { evolved with course := Bool.noConfusion }
  refine evolves_ite ((evolves_pushReturn _ _).bind fun _ => enters) (evolves_ite ?_ enters)
  exact (evolves_pushReturn _ _).bind fun _ =>
    evolves_modify_then enters fun _ evolved => { evolved with course := Bool.noConfusion }

theorem evolves_returnWithNumber (number : Nat) : (returnWithNumber number).Evolves true start := by
  refine evolves_ite (evolves_returnFromCall .plain) ?_
  split
  · exact evolves_ite evolves_lift (evolves_returnWithError _)
  · exact evolves_lift

theorem evolves_chooseFunction {choose : Machine → Machine} (name : List UInt8)
    (chosen : ∀ machine, start.Evolves moves machine → start.Evolves moves (choose machine)) :
    (chooseFunction choose name).Evolves moves start :=
  evolves_get fun _ _ => evolves_found fun _ _ => evolves_modify chosen

/-! ## Programs -/

/-- Every edit forgets the calls. -/
theorem Evolves.edit (evolved : start.Evolves true machine) (library : Library) :
    start.Evolves true ({ machine with library } : Machine).clearReturns :=
  Evolves.clearReturns { evolved with course := Bool.noConfusion }

theorem evolves_insertLine (instruction : Instruction) : (insertLine instruction).Evolves true start := by
  have inserts : (do
      let machine ← get
      let address := insertionAddress (← machine.currentProgram) machine.address
      let library ← machine.library.insert machine.program address instruction
      set { ({ machine with library : Machine }).clearReturns with address := some address } :
      Action Unit).Evolves true start := by
    refine evolves_get fun machine evolved => evolves_found fun program _ => evolves_found fun library _ => ?_
    exact evolves_set { evolved.edit library with course := Bool.noConfusion }
  exact evolves_ite (evolves_found fun _ _ => inserts) inserts

theorem evolves_deleteLine : deleteLine.Evolves true start := by
  refine evolves_get fun machine evolved => ?_
  split
  · exact evolves_pure
  · refine evolves_found fun result _ => ?_
    obtain ⟨deleted, library⟩ := result
    refine evolves_set_then evolves_pure ?_
    have edited := evolved.edit library
    split
    · exact { edited with course := Bool.noConfusion }
    · exact edited

theorem Evolves.nextLine (evolved : start.Evolves true machine) : start.Evolves true machine.nextLine := by
  rw [Machine.nextLine]
  split
  · exact evolved
  · exact { evolved with course := Bool.noConfusion }

theorem Evolves.previousLine (evolved : start.Evolves true machine) :
    start.Evolves true machine.previousLine := by
  rw [Machine.previousLine]
  split
  · exact evolved
  · exact { evolved with course := Bool.noConfusion }

theorem evolves_deleteLines (count : Nat) : (deleteLines count).Evolves true start := by
  induction count with
  | zero => exact evolves_pure
  | succ count ih =>
      refine evolves_get fun machine evolved => evolves_ite ?_ evolves_pure
      refine evolves_deleteLine.bind fun deleted => evolves_ite ?_ evolves_pure
      exact evolves_modify_then ih fun _ evolved => evolved.nextLine

theorem evolves_gotoNewProgram : gotoNewProgram.Evolves true start := by
  refine evolves_get fun machine evolved => evolves_found fun opened _ => ?_
  exact evolves_set { evolved.edit opened.2 with course := Bool.noConfusion }

theorem evolves_gotoLine (argument : Argument) : (gotoLine argument).Evolves true start := by
  have clears : (modify clearReturns : Action Unit).Evolves true start :=
    evolves_modify fun _ evolved => evolved.clearReturns
  refine evolves_get fun machine evolved => ?_
  split
  · exact evolves_found fun program _ => evolves_set_then clears { evolved with course := Bool.noConfusion }
  · exact evolves_found fun place _ => evolves_set_then clears { evolved with course := Bool.noConfusion }
  · exact evolves_found fun _ _ => clears

theorem evolves_clearProgram (name : List UInt8) : (clearProgram name).Evolves true start := by
  refine evolves_get fun machine evolved => evolves_found fun place _ => evolves_found fun library _ => ?_
  have cleared := evolved.edit library
  refine evolves_set ?_
  split
  · exact { cleared with course := Bool.noConfusion }
  split
  · exact { cleared with course := Bool.noConfusion }
  · exact cleared

/-! ## All commands -/

theorem evolves_controlCommand {opcode : Opcode} {argument : Argument} {target : JumpTarget}
    {action : Action Unit} (found : controlCommand? opcode argument target = some action) :
    action.Evolves opcode.movesCourse start := by
  cases opcode <;> cases found
  case goto => exact evolves_goto argument target
  case execute => exact evolves_call argument target
  case returnFromCall | endOfProgram | returnYes | returnNo => exact evolves_returnFromCall _
  case returnError => exact evolves_withNumber evolves_returnWithNumber
  case stop => exact evolves_lift
  case run => exact evolves_modify fun _ evolved => { evolved with course := Bool.noConfusion }
  case function => exact evolves_withNumber fun n => evolves_beginFunction (n / 10) (n % 10)
  case localFourLevel | localManyLevel => exact evolves_setLocalMode _
  case incrementSkipGreater | decrementSkipEqual => exact evolves_countLoop _ argument
  case solveProgram | integrateProgram =>
    exact evolves_withLabel fun name => evolves_chooseFunction name fun _ evolved => { evolved with }
  case solve => exact evolves_withName evolves_beginSolving
  case integrate => exact evolves_withName evolves_beginIntegrating
  case clearProgram => exact evolves_withLabel evolves_clearProgram
  case gotoLine => exact evolves_gotoLine argument
  case gotoNewProgram => exact evolves_gotoNewProgram
  case singleStep => exact evolves_modify fun _ evolved => evolved.nextLine
  case backStep => exact evolves_modify fun _ evolved => evolved.previousLine
  case deleteLines => exact evolves_withNumber evolves_deleteLines
  all_goals exact evolves_pure

/-- A new machine has nothing of the old one. -/
theorem evolves_reset (machine : Machine) (generator : Generator) :
    start.Evolves true (machine.reset generator) where
  isCalm _ := rfl
  hasMadeTable _ := .new machine.memory
  isFitted _ := Stack.isFitted_initial
  course := Bool.noConfusion

theorem evolves_generalCommand {opcode : Opcode} {argument : Argument} {action : Action Unit}
    (found : generalCommand? opcode argument = some action) : action.Evolves opcode.movesCourse start := by
  cases opcode <;> cases found
  case number =>
    unfold recallLiteral
    split
    · exact evolves_pushLift _
    · exact evolves_lift
  case shortText => exact evolves_modify fun _ evolved => { evolved with }
  case longText => exact evolves_found fun value _ => evolves_pushLift value
  case random => exact evolves_get fun _ evolved => evolves_set_then (evolves_pushLift _) { evolved with }
  case seed =>
    refine evolves_get fun _ _ => evolves_found fun x _ => evolves_found fun seed _ => ?_
    exact evolves_modify fun _ evolved => { evolved with }
  case clearAll => exact evolves_modify fun machine _ => evolves_reset machine _

theorem evolves_effect (memory : Nat) (flags : Flags) (instruction : Instruction) (target : JumpTarget) :
    (effect memory flags instruction target).Evolves instruction.opcode.movesCourse start := by
  rw [effect]
  cases found : (numericCommand? memory flags instruction.opcode instruction.argument).or _ with
  | none => exact evolves_lift
  | some action =>
      simp only [Option.or_eq_some_iff] at found
      obtain numeric | ⟨-, condition | ⟨-, stack | ⟨-, mode | ⟨-, memory | ⟨-, editing |
        ⟨-, control | ⟨-, output | ⟨-, general⟩⟩⟩⟩⟩⟩⟩⟩ := found
      · exact evolves_numericCommand numeric
      · exact evolves_condition condition
      · exact evolves_stackCommand stack
      · exact evolves_modeCommand mode
      · exact evolves_memoryCommand memory
      · exact evolves_editingCommand editing
      · exact evolves_controlCommand control
      · exact evolves_outputCommand output
      · exact evolves_generalCommand general

/-- What a command leaves. Whether it may move the course is known from its opcode. -/
theorem evolves_perform (instruction : Instruction) (target : JumpTarget) :
    (perform instruction target).Evolves instruction.opcode.movesCourse start := by
  refine evolves_get fun machine evolved => ?_
  refine (evolves_effect machine.memory machine.flags instruction target).bind fun _ => ?_
  refine evolves_modify fun machine evolved => ?_
  rw [afterCommand]
  split
  · exact evolved
  · exact { evolved with }

end Machine

end Keystroke
