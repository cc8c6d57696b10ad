import Keystroke.Value

/-!
# The matrix editor

The editor points at an element of a matrix or list variable. Its cursor counts rows and columns from
zero; a list is one column. Sublists that were entered are remembered as a path of indices.

While a local variable hides the edited one, the editor is kept as a list value among the locals.
-/

namespace Keystroke

/-- A cursor in a matrix or list variable. -/
structure Editor where
  /-- Whether the contents are being edited, and not only indexed. -/
  isEditing : Bool
  name : List UInt8
  /-- The level of the variable. -/
  level : Int
  row : Nat
  col : Nat
  /-- The indices of the sublists that were entered, the outermost first. -/
  path : List Nat
deriving DecidableEq, Inhabited

/-- One for true and zero for false. -/
def Value.ofBool (condition : Bool) : Value := .real (if condition then 1 else 0)

namespace Editor

/-- Indices are words of sixty-four bits; this is the largest one. -/
def indexLimit : Nat := 0xFFFFFFFFFFFFFFFF

/-- The index for a number counted from one. In front of the first there is none. -/
def zeroBased (x : Binary64) : Outcome Nat :=
  match x.toNatUpTo indexLimit with
  | 0 => fail .crash
  | number + 1 => .ok number

/-- The number counted from one for an index. Behind the largest there is none. -/
def oneBased (index : Nat) : Outcome Binary64 :=
  if index = indexLimit then fail .crash else .ok (.ofNat (index + 1))

/-- A place among `total` ones, some steps away from another; the last is followed by the first. -/
def stepAround (total place : Nat) (distance : Int) : Nat :=
  ((place + distance).bmod (indexLimit + 1) % total).toNat

/-- The editor as a list value. -/
def pack (editor : Editor) : Outcome Value := do
  let name ← Value.ofText editor.name
  return .list none
    [.ofBool editor.isEditing, name, .real (.ofInt editor.level), .real (.ofNat editor.row),
     .real (.ofNat editor.col),
     .list none (editor.path.map fun index => .real (.ofNat index))]

/-- The index that a real value stands for. -/
def unpackIndex (value : Value) : Outcome Nat := do
  return (← value.asReal).toNatUpTo indexLimit

/-- The editor that a list value holds. -/
def unpack : Value → Outcome Editor
  | .list _ [isEditing, .text name, level, row, col, .list _ path] => do
    let path ← path.mapM unpackIndex
    return {
      isEditing := !(← isEditing.asReal).equals 0
      name
      level := (← level.asReal).toInt32
      row := ← unpackIndex row
      col := ← unpackIndex col
      path }
  | _ => failWith .internalError "BAD EDITOR PACKAGE"

/-- Rows and columns of what can be edited. -/
def dimensions : Value → Outcome (Nat × Nat)
  | .realMatrix _ grid => .ok (grid.rows, grid.cols)
  | .complexMatrix _ grid => .ok (grid.rows, grid.cols)
  | .list _ items => .ok (items.length, 1)
  | _ => fail .invalidType

/-- The element of a matrix in a row and column, or of a list at the row. -/
def element (value : Value) (row col : Nat) : Outcome Value :=
  let found (element : Option Value) : Outcome Value :=
    match element with
    | some value => .ok value
    | none => fail .dimensionError
  match value with
  | .realMatrix _ grid => found ((grid.get? row col).map .ofCell)
  | .complexMatrix _ grid => found ((grid.get? row col).map .complex)
  | .list _ items => found items[row]?
  | _ => fail .invalidType

/-- What a path of indices leads to. -/
def follow : List Nat → Value → Outcome Value
  | [], value => .ok value
  | index :: path, .list _ items =>
    match items[index]? with
    | some item => follow path item
    | none => fail .dimensionError
  | _ :: _, _ => fail .invalidType

/-! ## Storing an element -/

/-- Put a value into an element of a real matrix. -/
def storeReal (storage : Storage) (grid : Grid Cell) (row col : Nat) (cell : Cell) :
    Value × Outcome Unit :=
  match grid.set row col cell with
  | .ok changed => (.realMatrix storage changed, .ok ())
  | .error error => (.realMatrix storage grid, .error error)

/-- Put a value into an element of a complex matrix. -/
def storeComplex (storage : Storage) (grid : Grid ComplexNumber) (row col : Nat)
    (element : ComplexNumber) : Value × Outcome Unit :=
  match grid.set row col element with
  | .ok changed => (.complexMatrix storage changed, .ok ())
  | .error error => (.complexMatrix storage grid, .error error)

/-- Put a value into a list; one past its end appends. -/
def storeItem (storage : Storage) (items : List Value) (row : Nat) (value : Value) :
    Value × Outcome Unit :=
  if row < items.length then (.list storage (items.set row value), .ok ())
  else if row = items.length then (.list storage (items ++ [value]), .ok ())
  else (.list storage items, fail .dimensionError)

/-- Put a value into an element of an array. The array moves to the given storage before its bounds
are looked at. -/
def storeElement (storage : Storage) (row col : Nat) (value : Value) (target : Value) :
    Value × Outcome Unit :=
  match target, value with
  | .realMatrix _ grid, .real x => storeReal storage grid row col (.number x)
  | .realMatrix _ grid, .text bytes => storeReal storage grid row col (.text bytes)
  | .complexMatrix _ grid, .real x => storeComplex storage grid row col ⟨x, 0⟩
  | .complexMatrix _ grid, .complex z => storeComplex storage grid row col z
  | .complexMatrix _ _, .text _ => (target, fail .alphaDataIsInvalid)
  | .list _ items, _ => storeItem storage items row value
  | _, _ => (target, fail .invalidType)

/-- Put a value into an element of what a path leads to. Every list on the way moves to a storage of
its own, numbered from `storage` on. -/
def storeAlong (row col : Nat) (value : Value) : List Nat → Nat → Value → Value × Outcome Unit
  | [], storage, target => storeElement (some storage) row col value target
  | index :: path, storage, .list _ items =>
    match items[index]? with
    | some item =>
      let (changed, outcome) := storeAlong row col value path (storage + 1) item
      (.list (some storage) (items.set index changed), outcome)
    | none => (.list (some storage) items, fail .dimensionError)
  | _ :: _, _, target => (target, fail .invalidType)

/-! ## Moving -/

/-- Move down the columns, from the end of one to the start of the next; the last is followed by the
first. -/
def moveByRows (editor : Editor) (rows cols : Nat) (distance : Int) : Editor :=
  if rows * cols = 0 then { editor with row := 0, col := 0 }
  else
    let place := stepAround (rows * cols) (editor.col * rows + editor.row) distance
    { editor with row := place % rows, col := place / rows }

/-- Move along the rows, from the end of one to the start of the next; the last is followed by the
first. -/
def moveByCols (editor : Editor) (rows cols : Nat) (distance : Int) : Editor :=
  if rows * cols = 0 then { editor with row := 0, col := 0 }
  else
    let place := stepAround (rows * cols) (editor.row * cols + editor.col) distance
    { editor with row := place / cols, col := place % cols }

end Editor

end Keystroke
