import Mathlib
import Keystroke.Machine.Calls
import Keystroke.Proofs.Actions
import Keystroke.Proofs.VariableTable
import Keystroke.Proofs.WholeNumbers

/-!
# Call packages

What `FUNC` keeps for the caller is read back from the package alone: whatever the called function has
done to stack, mode, last X and flags meanwhile, a return puts the caller's stack back with the outputs
in the place of the inputs, and a return with an error puts it back untouched.
-/

namespace Keystroke

/-- A stack with the given values, X first. In four-level mode these are the top four, above zeros where
there are fewer. -/
def Stack.holding (isBig : Bool) (values : List Value) : Stack :=
  ⟨isBig, if isBig then values else (values ++ fourZeros).take fourLevels⟩

theorem Stack.ofValues_eq_holding (isBig : Bool) (values : List Value) :
    ofValues isBig values = holding isBig values := by
  cases isBig with
  | true => rfl
  | false =>
      simp [ofValues, holding, fitFour, fourZeros, List.take_append, List.take_replicate]

/-- A whole stack holds its values. -/
theorem Stack.holding_values {stack : Stack}
    (fourLevels : stack.isBig = false → stack.depth = Stack.fourLevels) :
    holding stack.isBig stack.values = stack := by
  rcases stack with ⟨_ | _, values⟩
  · have length : values.length = Stack.fourLevels := fourLevels rfl
    simp [holding, ← length]
  · rfl

/-- Whether a value is no array or an array with a storage. -/
def Value.hasStorage : Value → Bool
  | .realMatrix none _ | .complexMatrix none _ | .list none _ => false
  | _ => true

theorem Value.numbered_of_hasStorage {value : Value} (stored : value.hasStorage = true)
    (next : Nat) : value.numbered next = (value, next) := by
  cases value with
  | null | real | complex | text => rfl
  | realMatrix storage | complexMatrix storage | list storage =>
      cases storage with
      | none => cases stored
      | some number => rfl

theorem Value.allNumbered_of_hasStorage {values : List Value}
    (stored : ∀ value ∈ values, value.hasStorage = true) (next : Nat) :
    Value.allNumbered next values = (values, next) := by
  induction values with
  | nil => rfl
  | cons value rest ih =>
      have rest := ih fun other member => stored other (List.mem_cons_of_mem _ member)
      simp only [allNumbered, numbered_of_hasStorage (stored value List.mem_cons_self), rest]

namespace CallPackage

/-- A package with the stack of a caller is read back from its list value. -/
theorem unpack_numbered_pack (isBig : Bool) (saved : SavedStack)
    (stored : ∀ value ∈ saved.lastX :: saved.values, value.hasStorage = true)
    (inputs : saved.inputs < 2 ^ 53) (outputs : saved.outputs < 2 ^ 53) (next : Nat) :
    unpack ((pack ⟨isBig, some saved⟩).numbered next).1 = .ok ⟨isBig, some saved⟩ := by
  have storedValues : ∀ value ∈ saved.values.reverse, value.hasStorage = true := fun value member =>
    stored value (List.mem_cons_of_mem _ (List.mem_reverse.mp member))
  have readInputs : (Binary64.ofNat saved.inputs).toNatUpTo Editor.indexLimit = saved.inputs :=
    Binary64.toNatUpTo_ofNat inputs (by rw [Editor.indexLimit]; omega)
  have readOutputs : (Binary64.ofNat saved.outputs).toNatUpTo Editor.indexLimit = saved.outputs :=
    Binary64.toNatUpTo_ofNat outputs (by rw [Editor.indexLimit]; omega)
  have readBool : ∀ condition : Bool,
      (!(if condition then 1 else 0 : Binary64).equals 0) = condition := by
    rintro (_ | _) <;> rfl
  simp [pack, Value.numbered, Value.allNumbered, Value.ofBool,
    Value.allNumbered_of_hasStorage storedValues,
    Value.numbered_of_hasStorage (stored _ List.mem_cons_self), unpack, unpackReal, readInputs,
    readOutputs, readBool, bind, Except.bind, pure, Except.pure]

end CallPackage

namespace Machine

@[simp]
theorem depth_modifyTop (returns : Returns) (change : Frame → Frame) :
    (returns.modifyTop change).depth = returns.depth := by
  rcases returns with ⟨limit, overflow, _ | ⟨frame, rest⟩⟩ <;> rfl

variable {machine : Machine}

/-- The variable under the name of packages that the present call sees. -/
def package? (machine : Machine) : Option Variable :=
  (machine.bindings.lookup? packageName machine.level).bind machine.bindings.get?

/-- Keeping a package changes the variable of this name at the level of the call, and marks the frame. -/
theorem on_keepPackage (machine : Machine) (package : CallPackage) :
    ∃ bindings nextStorage entry,
      (keepPackage package).on machine = (.ok (),
        { machine with
          bindings
          nextStorage
          returns := machine.returns.modifyTop fun frame => { frame with savesStack := true } }) ∧
      bindings.besides packageName machine.level =
        machine.bindings.besides packageName machine.level ∧
      (bindings.lookup? packageName machine.level).bind bindings.get? = some entry ∧
      entry.level = machine.level ∧
      entry.value = (package.pack.numbered machine.nextStorage).1 := by
  obtain ⟨hides, bindings, entry, stored, found, atLevel, value, besides⟩ :=
    @Variables.storeLocal_eq_ok packageName machine.level machine.bindings rfl
      (package.pack.numbered machine.nextStorage).1 keptMarks
  refine ⟨bindings, (package.pack.numbered machine.nextStorage).2, entry, ?_, besides, found, atLevel,
    value⟩
  rw [level] at stored
  simp [keepPackage, adopt, Action.on_bind, level, stored]

/-- Taking a package of the present call out of its locals changes nothing else. -/
theorem on_takePackage {entry : Variable} {package : CallPackage}
    (kept : machine.package? = some entry) (atLevel : entry.level = machine.level)
    (unpacked : CallPackage.unpack entry.value = .ok package) :
    ∃ bindings,
      (takePackage machine.level).on machine = (.ok package, { machine with bindings }) ∧
      bindings.besides packageName machine.level =
        machine.bindings.besides packageName machine.level := by
  obtain ⟨bindings, purged, besides⟩ := Variables.purge_eq_some kept atLevel
  refine ⟨bindings, ?_, besides⟩
  simp [takePackage, Action.on_bind, purged, unpacked]

/-- What `FUNC` does: the caller's stack is in the package, and the called function has its inputs. -/
theorem on_beginFunction_eq_ok {after : Machine} {inputs outputs : Nat}
    (began : (beginFunction inputs outputs).on machine = (.ok (), after)) :
    inputs ≤ machine.stack.depth ∧
    ∃ bindings nextStorage entry,
      after = { machine with
        stack := .holding machine.stack.isBig (machine.stack.values.take inputs)
        bindings
        nextStorage
        returns := machine.returns.modifyTop fun frame => { frame with savesStack := true } } ∧
      bindings.besides packageName machine.level =
        machine.bindings.besides packageName machine.level ∧
      after.package? = some entry ∧ entry.level = machine.level ∧
      entry.value = ((CallPackage.pack ⟨machine.stack.isBig, some {
        values := machine.stack.values
        lastX := machine.lastX
        inputs
        outputs
        errorIgnored := machine.flags.get Flags.errorIgnored }⟩).numbered machine.nextStorage).1 := by
  obtain ⟨bindings, nextStorage, entry, keeps, besides, found, atLevel, value⟩ :=
    on_keepPackage machine ⟨machine.stack.isBig, some {
      values := machine.stack.values
      lastX := machine.lastX
      inputs
      outputs
      errorIgnored := machine.flags.get Flags.errorIgnored }⟩
  by_cases refused : machine.returns.isEmpty = true ∨ machine.callSavesStack = true
  · simp [beginFunction, Action.on_bind, refused, fail] at began
  · by_cases shallow : machine.stack.depth < inputs
    · simp [beginFunction, Action.on_bind, refused, shallow, fail] at began
    · simp only [beginFunction, Action.on_bind, Action.on_get, Action.on_modify, Bool.or_eq_true,
        refused, shallow, if_false, keeps, Prod.mk.injEq, true_and] at began
      subst began
      refine ⟨not_lt.mp shallow, bindings, nextStorage, entry, ?_, besides, ?_, atLevel, value⟩
      · rw [Stack.ofValues_eq_holding]
      · simpa [package?, level] using found

/-- `FUNC` protects the stack of the caller, for every state of the machine in which it succeeds. The
called function gets the inputs and nothing else of the stack. Whenever the machine is again at the depth
of this call and its package is still there, a return gives the caller its stack with the outputs in the
place of the inputs, with zeros for outputs that are missing, and the last input as last X; a return with
an error gives back stack and last X as they were. Both restore the mode of the stack and the flag that
ignores an error. Nothing else changes but the package and its mark in the frame. -/
theorem function_protects_caller {after : Machine} {number : UInt32}
    (fourLevels : machine.stack.isBig = false → machine.stack.depth = Stack.fourLevels)
    (stored : ∀ value ∈ machine.lastX :: machine.stack.values, value.hasStorage = true)
    (began : (beginFunction (number.toNat / 10) (number.toNat % 10)).on machine = (.ok (), after)) :
    let inputs := number.toNat / 10
    let outputs := number.toNat % 10
    let errorIgnored := machine.flags.get Flags.errorIgnored
    (inputs ≤ machine.stack.depth ∧ ∃ bindings nextStorage,
      bindings.besides packageName machine.level =
        machine.bindings.besides packageName machine.level ∧
      after = { machine with
        stack := .holding machine.stack.isBig (machine.stack.values.take inputs)
        bindings
        nextStorage
        returns := machine.returns.modifyTop fun frame => { frame with savesStack := true } }) ∧
    ∀ later : Machine, later.level = after.level → later.package? = after.package? →
      (∃ bindings,
        bindings.besides packageName later.level = later.bindings.besides packageName later.level ∧
        finishFunction.on later = (.ok (), { later with
          stack := .holding machine.stack.isBig
            (later.stack.values.take outputs ++
              List.replicate (outputs - later.stack.depth) Value.zero ++
              machine.stack.values.drop inputs)
          lastX := if 0 < inputs then machine.stack.values.headD machine.lastX else machine.lastX
          flags := later.flags.set Flags.errorIgnored errorIgnored
          bindings })) ∧
      ∃ bindings,
        bindings.besides packageName later.level = later.bindings.besides packageName later.level ∧
        discardFunction.on later = (.ok (), { later with
          stack := machine.stack
          lastX := machine.lastX
          flags := later.flags.set Flags.errorIgnored errorIgnored
          bindings }) := by
  obtain ⟨enough, bindings, nextStorage, entry, rfl, besides, kept, atLevel, value⟩ :=
    on_beginFunction_eq_ok began
  have small := number.toNat_lt
  have unpacked := CallPackage.unpack_numbered_pack machine.stack.isBig
    { values := machine.stack.values
      lastX := machine.lastX
      inputs := number.toNat / 10
      outputs := number.toNat % 10
      errorIgnored := machine.flags.get Flags.errorIgnored }
    stored (by dsimp only; omega) (by dsimp only; omega) machine.nextStorage
  rw [← value] at unpacked
  refine ⟨⟨enough, bindings, nextStorage, besides, rfl⟩, ?_⟩
  intro later sameLevel samePackage
  rw [kept] at samePackage
  have levelEq : later.level = machine.level := by rw [sameLevel]; simp [level]
  obtain ⟨left, took, leftBesides⟩ :=
    on_takePackage samePackage (atLevel.trans levelEq.symm) unpacked
  have whole : Stack.ofValues machine.stack.isBig machine.stack.values = machine.stack := by
    rw [Stack.ofValues_eq_holding, Stack.holding_values fourLevels]
  constructor
  · refine ⟨left, leftBesides, ?_⟩
    have enough : ¬ machine.stack.values.length < number.toNat / 10 := not_lt.mpr enough
    simp only [finishFunction, Action.on_bind, Action.on_get, took, Action.on_modify, Action.on_lift,
      returnedValues, SavedStack.withoutInputs, enough, if_false, Stack.ofValues_eq_holding,
      Stack.depth]
    rfl
  · refine ⟨left, leftBesides, ?_⟩
    simp [discardFunction, Action.on_bind, took, whole]

/-- A machine in a call, with four levels that hold 4, 3, 2 and 1. -/
def inFourLevelCall : Machine :=
  { Machine.initial default with
    stack := ⟨false, [.real 4, .real 3, .real 2, .real 1]⟩
    lastX := .real 9
    flags := Flags.initial.set Flags.errorIgnored true
    returns := { Returns.initial with items := [⟨.program 0, some 0, false, false, false, false⟩] } }

/-- The machine after `FUNC 21`, where the called function has emptied a stack of many levels. -/
def inManyLevelFunction : Machine :=
  { (beginFunction 2 1).attempt inFourLevelCall with
    stack := ⟨true, []⟩
    lastX := .null
    flags := .initial }

/-- The missing output is a zero, and a zero is below the two values that were left. -/
theorem return_to_fourLevels :
    inFourLevelCall.stack.depth = Stack.fourLevels ∧
    (∀ value ∈ inFourLevelCall.lastX :: inFourLevelCall.stack.values, value.hasStorage = true) ∧
    (beginFunction 2 1).on inFourLevelCall =
      (.ok (), (beginFunction 2 1).attempt inFourLevelCall) ∧
    ∃ bindings, finishFunction.on inManyLevelFunction = (.ok (), { inManyLevelFunction with
      stack := ⟨false, [.zero, .real 2, .real 1, .zero]⟩
      lastX := .real 4
      flags := Flags.initial.set Flags.errorIgnored true
      bindings }) := by
  have stored : ∀ value ∈ inFourLevelCall.lastX :: inFourLevelCall.stack.values,
      value.hasStorage = true := by
    simp [inFourLevelCall, Value.hasStorage]
  have began : (beginFunction 2 1).on inFourLevelCall =
      (.ok (), (beginFunction 2 1).attempt inFourLevelCall) := rfl
  obtain ⟨-, protect⟩ := @function_protects_caller inFourLevelCall _ 21 (fun _ => rfl) stored began
  obtain ⟨⟨bindings, -, finished⟩, -⟩ := protect inManyLevelFunction rfl rfl
  have ignored : inFourLevelCall.flags.get Flags.errorIgnored = true := by
    simp [inFourLevelCall, Flags.get, Flags.set, Flags.errorIgnored]
  rw [ignored] at finished
  exact ⟨rfl, stored, began, bindings, finished⟩

end Machine

end Keystroke
