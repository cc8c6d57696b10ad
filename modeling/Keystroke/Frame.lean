import Keystroke.BoundedStack
import Keystroke.Program

/-!
# Return frames

What a call leaves on the return stack: who called, where to go on, and what has to be put back.
-/

namespace Keystroke

/-- Who is returned to. -/
inductive Caller where
  | program (index : Nat)
  /-- The solver, which called the function it solves. -/
  | solver
  /-- The integrator, which called its integrand. -/
  | integrator
deriving DecidableEq, Repr, Inhabited

namespace Caller

/-- The number that stands for a caller. -/
def code : Caller → Int
  | program index => index
  | solver => -2
  | integrator => -3

/-- The caller that a number stands for, if any. -/
def ofCode? (code : Int) : Option Caller :=
  if 0 ≤ code then some (program code.toNat)
  else if code = -2 then some solver
  else if code = -3 then some integrator
  else none

end Caller

/-- A return address and what belongs to the call. -/
structure Frame where
  caller : Caller
  /-- Where the caller goes on; nowhere if it was at its top. -/
  address : Option Nat
  /-- A suspended matrix editor is among the locals of the call. -/
  parksEditor : Bool := false
  /-- The stack of the caller is among the locals of the call. -/
  savesStack : Bool := false
  /-- Stack lift is disabled when the caller goes on. -/
  liftDisabled : Bool := false
  /-- The return stops the machine: the call was typed while a program was suspended. -/
  stops : Bool := false
deriving DecidableEq, Repr, Inhabited

namespace Frame

/-- The four properties of a frame as bits. -/
def bits (frame : Frame) : UInt8 :=
  (if frame.parksEditor then 1 else 0) ||| (if frame.savesStack then 2 else 0) |||
    (if frame.liftDisabled then 4 else 0) ||| (if frame.stops then 8 else 0)

/-- A frame with its four properties taken from bits. -/
def withBits (frame : Frame) (bits : UInt8) : Frame :=
  { frame with
    parksEditor := bits &&& 1 != 0
    savesStack := bits &&& 2 != 0
    liftDisabled := bits &&& 4 != 0
    stops := bits &&& 8 != 0 }

end Frame

/-- The return stack. -/
abbrev Returns := BoundedStack Frame

/-- The deepest nesting of calls. -/
def maximalReturns : Nat := 1024

/-- The return stack of a machine that is not in a call. -/
def Returns.initial : Returns := .empty maximalReturns .returnStackFull

end Keystroke
