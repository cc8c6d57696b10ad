import Mathlib
import Keystroke.Machine.Calls
import Keystroke.Proofs.Actions

/-!
# Leaving a call

The only thing that can go wrong when a call is left is that its parked editor cannot be read; then nothing
is changed. Otherwise the frame is gone, and with it the locals of its level.
-/

namespace Keystroke

open Keystroke.Action

namespace Machine

variable {machine : Machine} {frame : Frame} {rest : List Frame}

/-- The machine after its latest call was left, with the editor that came back. -/
def afterReturn (machine : Machine) (frame : Frame) (rest : List Frame) (editor : Option Editor) : Machine :=
  (({ machine with editor, returns := { machine.returns with items := rest } } : Machine).purgeLevel
    machine.level).checkEditor.setFlag Flags.liftDisabled frame.liftDisabled

/-- The editor of the caller when the latest call is left: one that is parked comes back. -/
def returnedEditor (machine : Machine) (frame : Frame) : Outcome (Option Editor) :=
  if frame.parksEditor then
    match machine.bindings.value? parkedEditorName machine.level with
    | none => .ok machine.editor
    | some package => (Editor.unpack package).map some
  else .ok machine.editor

theorem on_popReturn_nil (items : machine.returns.items = []) :
    popReturn.on machine = (.ok none, machine) := by
  have top : machine.returns.top? = none := by simp [BoundedStack.top?, items]
  rw [popReturn, on_bind_ok (on_get _), top]
  rfl

theorem on_popReturn_cons (items : machine.returns.items = frame :: rest) :
    popReturn.on machine =
      match machine.returnedEditor frame with
      | .ok editor => (.ok (some frame), machine.afterReturn frame rest editor)
      | .error error => (.error error, machine) := by
  have top : machine.returns.top? = some frame := by simp [BoundedStack.top?, items]
  have popped : machine.returns.pop = .ok (frame, { machine.returns with items := rest }) := by
    rw [BoundedStack.pop, items]
  have pops (editor : Option Editor) : Action.on (do
      let popped ← (← get).returns.pop
      modify fun left =>
        (({ left with returns := popped.2 : Machine }.purgeLevel machine.level).checkEditor).setFlag
          Flags.liftDisabled frame.liftDisabled
      return some frame : Action (Option Frame)) { machine with editor } =
        (.ok (some frame), machine.afterReturn frame rest editor) := by
    simp only [on_bind, on_get, on_lift, popped]
    rfl
  rw [popReturn, on_bind_ok (on_get _), returnedEditor]
  simp only [top]
  split
  · -- A parked editor is looked for among the locals.
    rw [on_bind, restoreEditor, on_bind_ok (on_get _)]
    cases parked : machine.bindings.value? parkedEditorName machine.level with
    | none => exact pops machine.editor
    | some package =>
        dsimp only
        rw [on_bind, on_lift]
        cases Editor.unpack package with
        | error error => rfl
        | ok editor => exact pops (some editor)
  · exact pops machine.editor

end Machine

end Keystroke
