import Keystroke.Error

/-!
# Stacks of limited depth

A stack that refuses to grow beyond its limit. Its items are listed from the top.
-/

namespace Keystroke

/-- A stack with a limit to its depth. -/
structure BoundedStack (α : Type) where
  limit : Nat
  /-- What a push beyond the limit fails with. -/
  overflow : ErrorKind
  /-- The items, the top first. -/
  items : List α

namespace BoundedStack

variable {α : Type}

def empty (limit : Nat) (overflow : ErrorKind) : BoundedStack α := ⟨limit, overflow, []⟩

def depth (stack : BoundedStack α) : Nat := stack.items.length

def isEmpty (stack : BoundedStack α) : Bool := stack.items.isEmpty

def isFull (stack : BoundedStack α) : Bool := stack.limit ≤ stack.depth

def top? (stack : BoundedStack α) : Option α := stack.items.head?

/-- The item at a distance from the bottom. -/
def fromBottom? (stack : BoundedStack α) (distance : Nat) : Option α :=
  stack.items.reverse[distance]?

/-- Put an item on top, unless the stack is full. -/
def push (stack : BoundedStack α) (item : α) : Outcome (BoundedStack α) :=
  if stack.isFull then fail stack.overflow
  else .ok { stack with items := item :: stack.items }

/-- Take the top item off. -/
def pop (stack : BoundedStack α) : Outcome (α × BoundedStack α) :=
  match stack.items with
  | [] => failWith .internalError "UNDERFLOW"
  | item :: rest => .ok (item, { stack with items := rest })

/-- Change the top item, if there is one. -/
def modifyTop (stack : BoundedStack α) (change : α → α) : BoundedStack α :=
  match stack.items with
  | [] => stack
  | item :: rest => { stack with items := change item :: rest }

def clear (stack : BoundedStack α) : BoundedStack α := { stack with items := [] }

end BoundedStack

end Keystroke
