import Keystroke.Value

/-!
# The evaluation stack

In four-level mode the stack always holds four values: a push loses the bottom one and a pop
duplicates it. In many-level mode it grows and shrinks and may be empty.
-/

namespace Keystroke

/-- The evaluation stack. -/
structure Stack where
  /-- Whether the stack is in many-level mode. -/
  isBig : Bool
  /-- The values, X first. -/
  values : List Value
deriving Inhabited

namespace Stack

/-- The depth in four-level mode. -/
def fourLevels : Nat := 4

/-- Four zeros. -/
def fourZeros : List Value := List.replicate fourLevels Value.zero

/-- The stack of a new machine. -/
def initial : Stack := ⟨false, fourZeros⟩

/-- The top four values, with zeros below a shallower stack. -/
def fitFour (values : List Value) : List Value :=
  values.take fourLevels ++ List.replicate (fourLevels - values.length) Value.zero

/-- A stack with the given values, X first, cut or filled up to four in four-level mode. -/
def ofValues (isBig : Bool) (values : List Value) : Stack :=
  ⟨isBig, if isBig then values else fitFour values⟩

def depth (stack : Stack) : Nat := stack.values.length

/-- The value at a distance from the top. -/
def get? (stack : Stack) (distance : Nat) : Option Value := stack.values[distance]?

def x (stack : Stack) : Outcome Value :=
  match stack.values with
  | [] => fail .tooFewArguments
  | x :: _ => .ok x

/-- Fail unless there are at least `count` values. -/
def require (stack : Stack) (count : Nat) : Outcome Unit :=
  if stack.depth < count then fail .tooFewArguments else .ok ()

/-- Fail where so many values find no memory. -/
def requireRoom (memory count : Nat) : Outcome Unit :=
  if memory ≤ count then fail .insufficientMemory else .ok ()

/-- Put a value on top; in four-level mode the bottom one is lost. -/
def push (stack : Stack) (value : Value) : Stack :=
  { stack with values := value :: (if stack.isBig then stack.values else stack.values.dropLast) }

/-- Replace X; an empty stack gets its first value. -/
def setX (stack : Stack) (value : Value) : Stack :=
  match stack.values with
  | [] => stack.push value
  | _ :: rest => { stack with values := value :: rest }

/-- Replace the value at a distance from the top, if there is one. -/
def set (stack : Stack) (distance : Nat) (value : Value) : Stack :=
  { stack with values := stack.values.set distance value }

/-- Take X off; in four-level mode the bottom value is duplicated. -/
def pop (stack : Stack) : Outcome (Value × Stack) :=
  match stack.values with
  | [] => if stack.isBig then fail .tooFewArguments else failWith .internalError "UNDERFLOW"
  | x :: rest =>
    .ok (x, { stack with
      values := if stack.isBig then rest else rest ++ [(x :: rest).getLastD x] })

/-- Take several values off and forget them. -/
def dropTop : Nat → Stack → Outcome Stack
  | 0, stack => .ok stack
  | count + 1, stack => do
    let (_, rest) ← stack.pop
    dropTop count rest

/-- Replace the top `count` values by one. -/
def replaceTop (stack : Stack) (count : Nat) (value : Value) : Outcome Stack := do
  stack.require count
  let rest ← dropTop (count - 1) stack
  return if count = 0 then rest.push value else rest.setX value

/-- Exchange two values, given by their distances from the top. -/
def swap (stack : Stack) (first second : Nat) : Outcome Stack := do
  stack.require (max first second + 1)
  match stack.values[first]?, stack.values[second]? with
  | some upper, some lower =>
    return { stack with values := (stack.values.set first lower).set second upper }
  | _, _ => return stack

/-- Send X to the bottom. -/
def rollDown (stack : Stack) : Stack :=
  match stack.values with
  | [] => stack
  | x :: rest => { stack with values := rest ++ [x] }

/-- Bring the bottom value up to X. -/
def rollUp (stack : Stack) : Stack :=
  match stack.values.getLast? with
  | none => stack
  | some bottom => { stack with values := bottom :: stack.values.dropLast }

/-- Remove all values, which leaves zeros in four-level mode. -/
def clear (stack : Stack) : Stack :=
  { stack with values := if stack.isBig then [] else fourZeros }

/-- Switch the mode; many-level mode keeps everything. -/
def setBig (stack : Stack) (isBig : Bool) : Stack := ofValues isBig stack.values

end Stack

end Keystroke
