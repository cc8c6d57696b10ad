import Keystroke.Machine.Operand

/-!
# Editing matrices

What the commands of the matrix editor do, and what becomes of the editor when its variable is hidden
or goes away. An editor whose variable is hidden by a local one is parked among the locals of the call
and comes back when the call returns.
-/

namespace Keystroke.Machine

/-- The name under which a parked editor is kept. -/
def parkedEditorName : List UInt8 := [1, 77, 65, 84]

/-- The marks of what is kept among the locals and never shown. -/
def keptMarks : UInt8 := Variable.privateMark ||| Variable.hiddenMark

/-- The editor, which must be active. -/
def activeEditor (machine : Machine) : Outcome Editor :=
  match machine.editor with
  | some editor => .ok editor
  | none => fail .nonexistent

/-- The matrix or list that the cursor is in. -/
def edited (machine : Machine) : Outcome Value := do
  let editor ← machine.activeEditor
  Editor.follow editor.path (← machine.variableNamed editor.name)

/-- Point the editor somewhere else. -/
def setEditor (editor : Editor) : Action Unit :=
  modify fun machine => { machine with editor := some editor }

/-- Begin to index or edit a variable; editing recalls its first element. -/
def beginEditing (name : List UInt8) (isEditing : Bool) : Action Unit := do
  let machine ← get
  match (machine.bindings.lookup? name machine.level).bind machine.bindings.get? with
  | none => fail .nonexistent
  | some entry =>
    let _ ← Editor.dimensions entry.value
    setEditor { isEditing, name, level := entry.level, row := 0, col := 0, path := [] }
    if isEditing then
      match Editor.element entry.value 0 0 with
      | .ok element => pushLift element
      | .error _ => return

/-- The largest row that the cursor may be put on; behind the end of a list there is one more. -/
def rowLimit (target : Value) (rows : Nat) : Nat :=
  match target with
  | .list _ _ => rows + 1
  | _ => rows

/-- Put the cursor on row Y and column X, both counted from one. -/
def storeCursor : Action Unit := do
  let machine ← get
  machine.stack.require 2
  let col ← (← machine.stack.x).asReal
  let row ← (← machine.y).asReal
  let target ← machine.edited
  let (rows, cols) ← Editor.dimensions target
  if row < 1 ∨ col < 1 ∨ .ofNat (rowLimit target rows) < row ∨ .ofNat cols < col then
    fail .dimensionError
  let editor ← machine.activeEditor
  setEditor
    { editor with
      row := ← Editor.zeroBased row
      col := ← Editor.zeroBased col }

/-- Recall the row and the column of the cursor, both counted from one. -/
def recallCursor : Action Unit := do
  let editor ← (← get).activeEditor
  pushLift (.real (← Editor.oneBased editor.row))
  push (.real (← Editor.oneBased editor.col))

/-- Put X into the element under the cursor. -/
def storeElement : Action Unit := do
  let machine ← get
  let x ← machine.stack.x
  let editor ← machine.activeEditor
  match machine.bindings.lookup? editor.name machine.level with
  | none => fail .nonexistent
  | some index =>
    match machine.bindings.get? index with
    | none => fail .nonexistent
    | some entry =>
      let storage ← newStorage (editor.path.length + 1)
      let (changed, outcome) :=
        Editor.storeAlong editor.row editor.col x editor.path storage entry.value
      setVariable index changed
      outcome

/-- Recall the element under the cursor. -/
def recallElement : Action Unit := do
  let machine ← get
  let editor ← machine.activeEditor
  pushLift (← Editor.element (← machine.edited) editor.row editor.col)

/-- Move the cursor inside what is edited, whose rows and columns the movement is given. -/
def moveCursor (move : Editor → Nat → Nat → Editor) : Action Unit := do
  let machine ← get
  let (rows, cols) ← Editor.dimensions (← machine.edited)
  setEditor (move (← machine.activeEditor) rows cols)

def moveDown : Action Unit := moveCursor fun editor rows cols => editor.moveByRows rows cols 1

def moveUp : Action Unit := moveCursor fun editor rows cols => editor.moveByRows rows cols (-1)

def moveRight : Action Unit := moveCursor fun editor rows cols => editor.moveByCols rows cols 1

def moveLeft : Action Unit := moveCursor fun editor rows cols => editor.moveByCols rows cols (-1)

/-- Leave a sublist, or move to the left where there is none to leave. -/
def leaveLeft : Action Unit := do
  let editor ← (← get).activeEditor
  match editor.path.getLast? with
  | some index => setEditor { editor with path := editor.path.dropLast, row := index, col := 0 }
  | none => moveLeft

/-- Enter the sublist under the cursor; in a matrix move to the right. -/
def enterRight : Action Unit := do
  let machine ← get
  let editor ← machine.activeEditor
  match ← machine.edited with
  | .list _ items =>
    match items[editor.row]? with
    | some (.list _ _) =>
      setEditor { editor with path := editor.path ++ [editor.row], row := 0, col := 0 }
    | _ => fail .invalidType
  | _ => moveRight

/-! ## Parking -/

/-- Take the editor away and keep it among the locals of the present call. Outside of calls it ends. -/
def parkEditor : Action Unit := do
  let machine ← get
  match machine.editor with
  | none => return
  | some editor =>
    set { machine with editor := none }
    if machine.returns.isEmpty then return
    let package ← adopt (← editor.pack)
    let (_, bindings) ←
      machine.bindings.storeLocal parkedEditorName package machine.level keptMarks
    modify fun machine =>
      { machine with
        bindings
        returns := machine.returns.modifyTop fun frame => { frame with parksEditor := true } }

/-- Put a value into a local variable. If that newly hides the edited one, the editor is parked. -/
def storeLocal (name : List UInt8) (value : Value) : Action Unit := do
  let machine ← get
  let (hides, bindings) ← machine.bindings.storeLocal name value machine.level 0
  set { machine with bindings }
  if hides && ((machine.editor.map fun editor => editor.name == name).getD false) then parkEditor

/-- Bring back the editor that is parked at a level, if there is one. -/
def restoreEditor (level : Int) : Action Unit := do
  let machine ← get
  match machine.bindings.value? parkedEditorName level with
  | none => return
  | some package => setEditor (← Editor.unpack package)

/-- Whether the editor's variable is there and can be edited. -/
def editorHasTarget (machine : Machine) (editor : Editor) : Bool :=
  match machine.recallName editor.name with
  | some value => (Editor.dimensions value).toOption.isSome
  | none => false

/-- End the editor if its variable is gone. -/
def checkEditor (machine : Machine) : Machine :=
  match machine.editor with
  | none => machine
  | some editor =>
    if machine.editorHasTarget editor then machine else { machine with editor := none }

/-- Remove the locals of a level and of deeper ones. -/
def purgeLevel (machine : Machine) (level : Int) : Machine :=
  { machine with bindings := (machine.bindings.purgeFromLevel level).2 }

end Keystroke.Machine
