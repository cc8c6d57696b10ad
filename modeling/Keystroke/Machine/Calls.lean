import Keystroke.Machine.Editing

/-!
# Calls

The return stack, and what a call keeps for its caller among its locals: the mode of the stack, or with
`FUNC` the whole stack.
-/

namespace Keystroke

/-- The stack of a caller, kept while the called function has its own. -/
structure SavedStack where
  /-- The values, X first. -/
  values : List Value
  lastX : Value
  inputs : Nat
  outputs : Nat
  /-- Whether the caller ignores the next error. -/
  errorIgnored : Bool
deriving Inhabited

/-- The caller's stack without the inputs, which the called function has consumed. It must have had them. -/
def SavedStack.withoutInputs (saved : SavedStack) : Outcome (List Value) :=
  if saved.values.length < saved.inputs then fail .crash else .ok (saved.values.drop saved.inputs)

/-- What a call keeps for its caller. -/
structure CallPackage where
  isBig : Bool
  /-- None if the mode of the stack is all there is to put back. -/
  saved : Option SavedStack
deriving Inhabited

namespace CallPackage

/-- The package as a list value. -/
def pack (package : CallPackage) : Value :=
  .list none
    (.ofBool package.isBig ::
      match package.saved with
      | none => []
      | some saved =>
        [.list none saved.values.reverse, saved.lastX, .real (.ofNat saved.inputs),
         .real (.ofNat saved.outputs), .ofBool saved.errorIgnored])

/-- The number in a value of a package. -/
def unpackReal : Value → Outcome Binary64
  | .real x => .ok x
  | _ => failWith .internalError "BAD FUNC PACKAGE"

/-- The package that a list value holds. -/
def unpack : Value → Outcome CallPackage
  | .list _ [isBig] => do return ⟨!(← unpackReal isBig).equals 0, none⟩
  | .list _ [isBig, .list _ values, lastX, inputs, outputs, errorIgnored] => do
    let isBig := !(← unpackReal isBig).equals 0
    return ⟨isBig, some {
      values := values.reverse
      lastX
      inputs := (← unpackReal inputs).toNatUpTo Editor.indexLimit
      outputs := (← unpackReal outputs).toNatUpTo Editor.indexLimit
      errorIgnored := !(← unpackReal errorIgnored).equals 0 }⟩
  | _ => failWith .internalError "BAD FUNC PACKAGE"

end CallPackage

namespace Machine

/-- The name under which a call keeps its package. -/
def packageName : List UInt8 := [2, 70, 85, 78, 67]

/-- Whether the present call keeps a package. -/
def callSavesStack (machine : Machine) : Bool :=
  (machine.returns.top?.map Frame.savesStack).getD false

/-- Keep a package among the locals of the present call. -/
def keepPackage (package : CallPackage) : Action Unit := do
  let value ← adopt package.pack
  let machine ← get
  let (_, bindings) ← machine.bindings.storeLocal packageName value machine.level keptMarks
  set { machine with
    bindings
    returns := machine.returns.modifyTop fun frame => { frame with savesStack := true } }

/-- Save the stack for the caller and go on with the top `inputs` values only. -/
def beginFunction (inputs outputs : Nat) : Action Unit := do
  let machine ← get
  if machine.returns.isEmpty || machine.callSavesStack then fail .invalidContext
  if machine.stack.depth < inputs then fail .stackDepthError
  keepPackage ⟨machine.stack.isBig, some {
    values := machine.stack.values
    lastX := machine.lastX
    inputs
    outputs
    errorIgnored := machine.flags.get Flags.errorIgnored }⟩
  modify fun machine =>
    { machine with
      stack := .ofValues machine.stack.isBig (machine.stack.values.take inputs) }

/-- Switch the mode of the stack until the present call returns. -/
def setLocalMode (isBig : Bool) : Action Unit := do
  let machine ← get
  if machine.returns.isEmpty then fail .invalidContext
  if !machine.callSavesStack then keepPackage ⟨machine.stack.isBig, none⟩
  modify fun machine => { machine with stack := machine.stack.setBig isBig }

/-- Take the package of a level out of the locals. -/
def takePackage (level : Int) : Action CallPackage := do
  let machine ← get
  match machine.bindings.purge packageName level with
  | none => failWith .internalError "FUNC PACKAGE LOST"
  | some (entry, bindings) =>
    set { machine with bindings }
    CallPackage.unpack entry.value

/-- The caller's stack with its inputs replaced by the top `outputs` values of the called function,
above zeros where there are too few. -/
def returnedValues (saved : SavedStack) (values : List Value) : Outcome (List Value) := do
  return values.take saved.outputs ++
    List.replicate (saved.outputs - values.length) Value.zero ++ (← saved.withoutInputs)

/-- Put the caller's stack back when a function returns. The last X becomes the last of its inputs. -/
def finishFunction : Action Unit := do
  let package ← takePackage (← get).level
  match package.saved with
  | none => modify fun machine => { machine with stack := machine.stack.setBig package.isBig }
  | some saved =>
    let values ← returnedValues saved (← get).stack.values
    modify fun machine =>
      { machine with
        stack := .ofValues package.isBig values
        lastX :=
          if 0 < saved.inputs then saved.values.headD saved.lastX else saved.lastX
        flags := machine.flags.set Flags.errorIgnored saved.errorIgnored }

/-- Put the caller's stack back untouched when a function ends with an error. -/
def discardFunction : Action Unit := do
  let package ← takePackage (← get).level
  match package.saved with
  | none => modify fun machine => { machine with stack := machine.stack.setBig package.isBig }
  | some saved =>
    modify fun machine =>
      { machine with
        stack := .ofValues package.isBig saved.values
        lastX := saved.lastX
        flags := machine.flags.set Flags.errorIgnored saved.errorIgnored }

/-- Put back only the mode of the stack, when a call is dropped without a return. -/
def abandonFunction : Action Unit := do
  let package ← takePackage (← get).level
  modify fun machine => { machine with stack := machine.stack.setBig package.isBig }

/-- Note where a call returns to. -/
def pushReturn (caller : Caller) (address : Option Nat) : Action Unit := do
  let machine ← get
  let frame : Frame :=
    { caller, address, liftDisabled := machine.flags.get Flags.liftDisabled }
  let returns ← machine.returns.push frame
  set { machine with returns }

/-- Leave a call: its parked editor comes back, its locals go, and stack lift is as it was. Outside of
calls there is nothing to leave. -/
def popReturn : Action (Option Frame) := do
  let machine ← get
  match machine.returns.top? with
  | none => return none
  | some frame =>
    if frame.parksEditor then restoreEditor machine.level
    let (_, returns) ← (← get).returns.pop
    modify fun left =>
      (({ left with returns : Machine }.purgeLevel machine.level).checkEditor).setFlag
        Flags.liftDisabled frame.liftDisabled
    return some frame

/-- Drop the calls one by one, without returning from them. -/
def dropCalls : Nat → Machine → Machine
  | 0, machine => machine
  | fuel + 1, machine =>
    match machine.returns.items with
    | [] => machine
    | _ :: rest =>
      let level := machine.level
      let left := if machine.callSavesStack then abandonFunction.attempt machine else machine
      dropCalls fuel
        ({ left with returns := { left.returns with items := rest } : Machine }.purgeLevel level)

/-- Forget all calls. The callers' stack modes come back, their stacks do not. -/
def clearReturns (machine : Machine) : Machine :=
  ((dropCalls machine.returns.depth machine).purgeLevel 0).checkEditor

/-- Leave the calls up to and including the latest one of the solver; tells whether one of them asked
to stop. -/
def unwindToSolver : Nat → Action Bool
  | 0 => fail .returnLost
  | fuel + 1 => do
    if (← get).callSavesStack then discardFunction
    match ← popReturn with
    | none => fail .returnLost
    | some frame =>
      if frame.caller = .solver then return frame.stops
      else return (← unwindToSolver fuel) || frame.stops

end Machine

end Keystroke
