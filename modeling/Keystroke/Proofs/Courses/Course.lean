import Mathlib
import Keystroke.Machine.Command
import Keystroke.Proofs.Actions

/-!
# The course of a machine

The course of a machine is where it executes, where its calls and searches go on when they are done, and what
went wrong on the way. Only what jumps, calls, returns, searches or edits programs changes it.
-/

namespace Keystroke

/-- A frame without the notes on what its call keeps. -/
def Frame.bare (frame : Frame) : Frame := { frame with parksEditor := false, savesStack := false }

/-- A return stack without the notes on what the latest call keeps. Those on the calls below do not change
before they are returned to. -/
def Returns.bare (returns : Returns) : Returns := returns.modifyTop Frame.bare

/-- Where a machine executes, and where its calls and searches go on when they are done. -/
structure Course where
  program : Nat
  address : Option Nat
  executed : Option Nat
  isRunning : Bool
  library : Library
  returns : Returns
  solverHome : Nat × Option Nat
  integratorHome : Nat × Option Nat
  /-- The errors that the host has not seen. No command adds one by itself. -/
  errors : List Error

namespace Machine

def course (machine : Machine) : Course where
  program := machine.program
  address := machine.address
  executed := machine.executed
  isRunning := machine.isRunning
  library := machine.library
  returns := machine.returns.bare
  solverHome := (machine.solver.program, machine.solver.address)
  integratorHome := (machine.integrator.program, machine.integrator.address)
  errors := machine.errors

/-- A machine is on a course. -/
def IsOn (course : Course) (machine : Machine) : Prop := machine.course = course

end Machine

theorem Returns.bare_eq (returns : Returns) : returns.bare =
    { returns with items := returns.items.head?.toList.map Frame.bare ++ returns.items.tail } := by
  obtain ⟨limit, overflow, items⟩ := returns
  cases items <;> rfl

theorem Returns.bare_modifyTop (returns : Returns) {change : Frame → Frame}
    (keeps : ∀ frame, (change frame).bare = frame.bare) :
    Returns.bare (returns.modifyTop change) = Returns.bare returns := by
  cases items : returns.items with
  | nil => simp [Returns.bare, BoundedStack.modifyTop, items]
  | cons frame rest => simp [Returns.bare, BoundedStack.modifyTop, items, keeps]

/-- Commands that jump, call, return, search or edit programs. -/
def Opcode.movesCourse : Opcode → Bool
  | .goto | .execute | .returnFromCall | .endOfProgram | .returnYes | .returnNo | .returnError | .run
  | .solve | .integrate | .clearProgram | .gotoLine | .gotoNewProgram | .singleStep | .backStep
  | .deleteLines | .clearAll => true
  | _ => false

namespace Machine

theorem course_checkEditor (machine : Machine) : machine.checkEditor.course = machine.course := by
  obtain ⟨editor, same, -⟩ := machine.exists_checkEditor
  rw [same]
  rfl

theorem course_afterCommand (machine : Machine) (opcode : Opcode) :
    (machine.afterCommand opcode).course = machine.course := by
  rw [afterCommand]
  split <;> rfl

end Machine

end Keystroke
