import Mathlib
import Keystroke.StateFile.Writer

/-!
# What layouts hold

What a file in a layout holds of a machine. An older layout cuts texts, or has no place for lists, for
levels and marks of variables, for properties of frames, or for more than four levels of the stack. Which
places share an array is left out here, in all layouts.
-/

namespace Keystroke

open StateFile (holdsGenerator holdsLongTexts holdsLevels holdsSharing)

/-! ## Values -/

/-- An element of a real matrix as a layout holds it. -/
def Cell.inLayout (version : Nat) : Cell → Cell
  | .number x => .number x
  | .text bytes =>
      .text (if holdsLongTexts version then bytes else bytes.take StateFile.shortTextLength)

mutual

/-- A value as a layout holds it, without the storages of its arrays. -/
def Value.inLayout (version : Nat) : Value → Value
  | .text bytes =>
      .text (if holdsLongTexts version then bytes else bytes.take StateFile.maximalShortLength)
  | .realMatrix _ grid => .realMatrix none (grid.map (Cell.inLayout version))
  | .complexMatrix _ grid => .complexMatrix none grid
  | .list _ items => .list none (Value.allInLayout version items)
  | value => value

/-- Values as a layout holds them, without the storages of their arrays. -/
def Value.allInLayout (version : Nat) : List Value → List Value
  | [] => []
  | value :: rest => value.inLayout version :: Value.allInLayout version rest

end

mutual

/-- The storages of the arrays in a value, each as often as there are arrays in it. -/
def Value.storages : Value → List Nat
  | .realMatrix storage _ | .complexMatrix storage _ => storage.toList
  | .list storage items => storage.toList ++ Value.allStorages items
  | _ => []

/-- The storages of the arrays in several values. -/
def Value.allStorages : List Value → List Nat
  | [] => []
  | value :: rest => value.storages ++ Value.allStorages rest

end

def Value.isList : Value → Bool
  | .list _ _ => true
  | _ => false

/-! ## Machines -/

/-- The generator that a layout gives back: an older one holds a number to seed it with. -/
def Generator.inLayout (version : Nat) (generator : Generator) : Generator :=
  if holdsGenerator version then generator else .ofSeed (Generator.fraction generator.second)

/-- A matrix editor as a layout holds it. -/
def Editor.inLayout (version : Nat) (editor : Editor) : Editor :=
  if holdsLevels version then editor else { editor with path := [] }

/-- A return frame as a layout holds it. -/
def Frame.inLayout (version : Nat) (frame : Frame) : Frame :=
  if holdsLevels version then frame else { caller := frame.caller, address := frame.address }

/-- A variable as a layout holds it: without levels it is a global one, and has no marks. -/
def Variable.inLayout (version : Nat) (entry : Variable) : Variable :=
  { entry with
    level := if holdsLevels version then entry.level else Variable.globalLevel
    marks := if holdsLevels version then entry.marks else 0
    value := entry.value.inLayout version }

/-- The stack as a layout holds it: an older one holds the top four levels in four-level mode. -/
def Stack.inLayout (version : Nat) (stack : Stack) : Stack :=
  ⟨holdsSharing version && stack.isBig,
    (StateFile.heldLevels version stack).map (Value.inLayout version)⟩

/-- The return stack as a layout holds it. -/
def Returns.inLayout (version : Nat) (returns : Returns) : Returns :=
  { returns with items := returns.items.map (Frame.inLayout version) }

/-- A machine with all its values, whose other parts are as a layout holds them. -/
def Machine.partsInLayout (version : Nat) (machine : Machine) : Machine :=
  { machine with
    returns := machine.returns.inLayout version
    generator := machine.generator.inLayout version
    editor := machine.editor.map (Editor.inLayout version) }

/-- What a layout holds of a machine. What no layout holds is as in a new machine. -/
def Machine.inLayout (version : Nat) (machine : Machine) : Machine :=
  { machine.partsInLayout version with
    stack := machine.stack.inLayout version
    lastX := machine.lastX.inLayout version
    bindings :=
      ⟨(StateFile.heldVariables version machine.bindings).map (Variable.inLayout version)⟩
    drawn := default
    memory := Grid.sizeLimit
    isInterrupted := false
    hasCrashed := false
    executed := none
    message := none
    question := none
    errors := []
    calls := []
    nextStorage := 0 }

namespace StateFile

/-- The values that a layout has to hold. -/
def valuesInLayout (version : Nat) (machine : Machine) : List Value :=
  heldLevels version machine.stack ++
    machine.lastX :: (heldVariables version machine.bindings).map Variable.value

/-- Whether a layout has no place for a machine, because there is a list in it. -/
def IsRefused (version : Nat) (machine : Machine) : Prop :=
  holdsLevels version = false ∧ ∃ value ∈ valuesInLayout version machine, value.isList = true

/-! ## The newest layout -/

@[simp]
theorem holdsLongTexts_currentVersion : holdsLongTexts currentVersion = true :=
  rfl

@[simp]
theorem holdsLevels_currentVersion : holdsLevels currentVersion = true :=
  rfl

@[simp]
theorem holdsSharing_currentVersion : holdsSharing currentVersion = true :=
  rfl

@[simp]
theorem inLayout_currentVersion_cell (element : Cell) : element.inLayout currentVersion = element := by
  cases element <;> rfl

@[simp]
theorem partsInLayout_currentVersion (machine : Machine) :
    machine.partsInLayout currentVersion = machine := by
  have sameReturns : machine.returns.inLayout currentVersion = machine.returns := by
    have same : Frame.inLayout currentVersion = id := rfl
    simp [Returns.inLayout, same]
  have sameEditor : machine.editor.map (Editor.inLayout currentVersion) = machine.editor := by
    have same : Editor.inLayout currentVersion = id := rfl
    simp [same]
  rw [Machine.partsInLayout, sameReturns, sameEditor]
  rfl

end StateFile

namespace Value

theorem allInLayout_eq_map (version : Nat) (values : List Value) :
    allInLayout version values = values.map (inLayout version) := by
  induction values with
  | nil => rfl
  | cons value values ih => rw [allInLayout, ih, List.map_cons]

theorem allStorages_eq_flatMap (values : List Value) :
    allStorages values = values.flatMap storages := by
  induction values with
  | nil => rfl
  | cons value values ih => rw [allStorages, ih, List.flatMap_cons]

end Value

end Keystroke
