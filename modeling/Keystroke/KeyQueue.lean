/-!
# Queued keys

Keys pressed while a program runs wait in a queue of sixteen.
-/

namespace Keystroke

/-- A key by its number, with the shift or without. -/
structure Key where
  isShifted : Bool
  code : UInt8
deriving DecidableEq, Repr, Inhabited

/-- The number by which a program knows a key: shifted keys count from thirty-eight. -/
def Key.number (key : Key) : UInt8 := if key.isShifted then key.code + 37 else key.code

/-- The waiting keys, the oldest first. -/
structure KeyQueue where
  keys : List Key
deriving DecidableEq, Inhabited

namespace KeyQueue

def capacity : Nat := 16

def empty : KeyQueue := ⟨[]⟩

/-- Append a key; when the queue is full the key is dropped and the answer is `false`. -/
def push (queue : KeyQueue) (key : Key) : Bool × KeyQueue :=
  if capacity ≤ queue.keys.length then (false, queue) else (true, ⟨queue.keys ++ [key]⟩)

/-- Take the oldest key. -/
def pop? (queue : KeyQueue) : Option (Key × KeyQueue) :=
  match queue.keys with
  | [] => none
  | key :: rest => some (key, ⟨rest⟩)

end KeyQueue

end Keystroke
