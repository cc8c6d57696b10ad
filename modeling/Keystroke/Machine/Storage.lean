import Keystroke.Machine

/-!
# Storage of arrays

A new array gets a storage number when it is put somewhere, and all copies of it keep that number. An
array that is changed gets a number of its own, so the copies are not changed with it.
-/

namespace Keystroke

mutual

/-- Number the arrays in a value that have no storage yet, from `next` on. -/
def Value.numbered (next : Nat) : Value → Value × Nat
  | .realMatrix none grid => (.realMatrix (some next) grid, next + 1)
  | .complexMatrix none grid => (.complexMatrix (some next) grid, next + 1)
  | .list none items =>
    let (items, next) := Value.allNumbered next items
    (.list (some next) items, next + 1)
  | value => (value, next)

/-- Number the arrays in a list of values. -/
def Value.allNumbered (next : Nat) : List Value → List Value × Nat
  | [] => ([], next)
  | value :: rest =>
    let (value, next) := value.numbered next
    let (rest, next) := Value.allNumbered next rest
    (value :: rest, next)

end

namespace Machine

/-- The value with a storage number for every array in it. -/
def adopt (value : Value) : Action Value := do
  let machine ← get
  let (value, nextStorage) := value.numbered machine.nextStorage
  set { machine with nextStorage }
  return value

/-- The first of `count` unused storage numbers. -/
def newStorage (count : Nat) : Action Nat := do
  let machine ← get
  set { machine with nextStorage := machine.nextStorage + count }
  return machine.nextStorage

end Machine

end Keystroke
