import Mathlib
import Keystroke.Machine.Memory
import Keystroke.Proofs.Calls.Settled

/-!
# Operands and memory between calls

Reading an operand gives a value that keeps to free storages, and writing one leaves alone what calls
keep, unless the operand has one of their reserved names.
-/

namespace Keystroke

open Outcome Keystroke.Action
open Variable (globalLevel)

namespace Stack

variable {free : Nat → Prop} {stack : Stack}

theorem Fits.later {calls : Calls} {bound later : Nat} (fits : stack.Fits (calls.free bound))
    (le : bound ≤ later) : stack.Fits (calls.free later) :=
  fun value member => (fits value member).later le

theorem Within.ofValues {shape : Nat → Nat → Prop} {values : List Value}
    (within : ∀ value ∈ values, value.Within shape free) (isBig : Bool) :
    (Stack.ofValues isBig values).Within shape free := by
  cases isBig with
  | true => exact within
  | false =>
      intro value member
      rcases List.mem_append.mp member with taken | filler
      · exact within value (List.mem_of_mem_take taken)
      · rw [List.eq_of_mem_replicate filler]
        exact Value.within_zero

theorem Fits.push (fits : stack.Fits free) {value : Value} (fitsValue : value.Fits free) :
    (stack.push value).Fits free := by
  intro item member
  rcases List.mem_cons.mp member with rfl | older
  · exact fitsValue
  · split at older
    · exact fits item older
    · exact fits item (List.mem_of_mem_dropLast older)

theorem Fits.setX (fits : stack.Fits free) {value : Value} (fitsValue : value.Fits free) :
    (stack.setX value).Fits free := by
  rw [Stack.setX]
  split
  · exact fits.push fitsValue
  · next x rest values =>
      intro item member
      rcases List.mem_cons.mp member with rfl | older
      · exact fitsValue
      · exact fits item (by simp [values, older])

theorem Fits.set (fits : stack.Fits free) {value : Value} (fitsValue : value.Fits free)
    (distance : Nat) : (stack.set distance value).Fits free := by
  intro item member
  rcases List.mem_or_eq_of_mem_set member with older | rfl
  · exact fits item older
  · exact fitsValue

theorem Fits.pop (fits : stack.Fits free) :
    Ends (fun popped => popped.2.Fits free) stack.pop := by
  rw [Stack.pop]
  split
  · exact ends_ite (fun _ => ends_fail rfl) fun _ => by simp
  · next x rest values =>
      have fitRest : ∀ item ∈ rest, item.Fits free := fun item member =>
        fits item (by simp [values, member])
      have fitsLast : ((x :: rest).getLastD x).Fits free := by
        apply fits
        rw [values, List.getLastD_eq_getLast?, List.getLast?_eq_some_getLast (List.cons_ne_nil x rest)]
        exact List.getLast_mem _
      intro item member
      dsimp only at member
      split at member
      · exact fitRest item member
      · rcases List.mem_append.mp member with older | last
        · exact fitRest item older
        · rwa [List.mem_singleton.mp last]

theorem Fits.dropTop (fits : stack.Fits free) (count : Nat) :
    Ends (Stack.Fits free) (Stack.dropTop count stack) := by
  induction count generalizing stack with
  | zero => exact fits
  | succ count ih => exact fits.pop.bind fun popped fitsPopped => ih fitsPopped

theorem ordinary_require (stack : Stack) (count : Nat) : IsOrdinary (stack.require count) :=
  ends_ite (fun _ => ends_fail rfl) fun _ => trivial

theorem Fits.replaceTop (fits : stack.Fits free) {value : Value} (fitsValue : value.Fits free)
    (count : Nat) : Ends (Stack.Fits free) (stack.replaceTop count value) := by
  refine (ordinary_require stack count).bind fun _ _ => ?_
  refine (fits.dropTop (count - 1)).bind fun rest fitsRest => ?_
  rw [ends_pure]
  split
  · exact fitsRest.push fitsValue
  · exact fitsRest.setX fitsValue

theorem Fits.swap (fits : stack.Fits free) (first second : Nat) :
    Ends (Stack.Fits free) (stack.swap first second) := by
  refine (ordinary_require stack _).bind fun _ _ => ?_
  split
  · next upper lower foundUpper foundLower =>
      have exchanged : (stack.set first lower).Fits free :=
        fits.set (fits lower (List.mem_of_getElem? foundLower)) first
      exact exchanged.set (fits upper (List.mem_of_getElem? foundUpper)) second
  · exact fits

theorem Fits.rollDown (fits : stack.Fits free) : stack.rollDown.Fits free := by
  rw [Stack.rollDown]
  split
  · exact fits
  · next x rest values =>
      intro item member
      exact fits item (by simpa [values, or_comm] using member)

theorem Fits.rollUp (fits : stack.Fits free) : stack.rollUp.Fits free := by
  rw [Stack.rollUp]
  split
  · exact fits
  · next bottom last =>
      intro item member
      rcases List.mem_cons.mp member with rfl | older
      · exact fits item (List.mem_of_getLast? last)
      · exact fits item (List.mem_of_mem_dropLast older)

theorem Fits.clear (stack : Stack) : stack.clear.Fits free := by
  intro item member
  rw [Stack.clear] at member
  dsimp only at member
  split at member
  · cases member
  · rw [List.eq_of_mem_replicate member]
    exact Value.within_zero

theorem Fits.setBig (fits : stack.Fits free) (isBig : Bool) : (stack.setBig isBig).Fits free :=
  Within.ofValues fits isBig

end Stack

namespace Machine

variable {calls : Calls} {floor : Nat} {machine : Machine}

/-- An argument avoids names if it stands for none of them. -/
def Avoids (names : List (List UInt8)) (machine : Machine) (argument : Argument) : Prop :=
  ∀ name, machine.resolve argument = .ok (.direct (.text name)) → name ∉ names

/-- An argument spares what calls keep if it does not stand for a reserved name. -/
def Spares (machine : Machine) (argument : Argument) : Prop :=
  ∀ name, machine.resolve argument = .ok (.direct (.text name)) → name ∉ reservedNames

/-- What an argument stands for depends on the stack, the last X and the variables only. -/
theorem Avoids.congr {names : List (List UInt8)} {other : Machine} {argument : Argument}
    (avoids : machine.Avoids names argument)
    (stack : other.stack = machine.stack) (lastX : other.lastX = machine.lastX)
    (bindings : other.bindings = machine.bindings) (returns : other.returns = machine.returns) :
    other.Avoids names argument := by
  have same : other.resolve argument = machine.resolve argument := by
    have sameRegisters : other.registers = machine.registers := by
      rw [registers, registers, level, level, bindings, returns]
    have sameOperand : ∀ operand, other.recallOperand operand = machine.recallOperand operand := by
      rintro (number | register | name)
      · rw [recallOperand, recallOperand, register, register, sameRegisters]
      · rw [recallOperand, recallOperand, stackRegister, stackRegister, stack, lastX]
      · rw [recallOperand, recallOperand, variableNamed, variableNamed, recallName, recallName, level,
          level, bindings, returns]
    unfold resolve
    simp only [sameOperand]
  rwa [Avoids, same]

theorem registersName_unreserved : registersName ∉ reservedNames := by
  decide

/-! ## Reading -/

theorem ends_x (settled : machine.IsSettled calls floor) :
    Ends (Value.Fits (calls.free machine.nextStorage)) machine.stack.x := by
  rw [Stack.x]
  split
  · exact ends_fail rfl
  · next x rest values => exact settled.stack x (by simp [values])

theorem ends_stackGet (settled : machine.IsSettled calls floor) (distance : Nat) :
    ∀ value ∈ machine.stack.get? distance, value.Fits (calls.free machine.nextStorage) :=
  fun value found => settled.stack value (List.mem_of_getElem? found)

theorem ends_y (settled : machine.IsSettled calls floor) :
    Ends (Value.Fits (calls.free machine.nextStorage)) machine.y := by
  rw [y]
  split
  · next value found => exact ends_stackGet settled 1 value found
  · exact ends_fail rfl

theorem ends_registers (settled : machine.IsSettled calls floor) :
    Ends (fun place =>
      machine.bindings.IsOpen calls.names place.1 ∧ place.2.Fits (calls.free machine.nextStorage))
      machine.registers := by
  rw [registers]
  split
  · next index found =>
      have isOpen := Variables.IsSettled.isOpen_of_lookup found settled.registers
      refine ⟨isOpen, ?_⟩
      cases got : machine.bindings.get? index with
      | none => exact Value.fits_null
      | some entry => exact settled.bindings.fits_get isOpen entry got
  · exact ends_fail rfl

theorem ends_register (settled : machine.IsSettled calls floor) (number : Nat) :
    Ends (Value.Fits (calls.free machine.nextStorage)) (machine.register number) := by
  refine (ends_registers settled).bind fun place _ => ?_
  obtain ⟨index, value⟩ := place
  extract_lets found
  have ends_found (value : Option Value)
      (fits : ∀ item ∈ value, item.Fits (calls.free machine.nextStorage)) :
      Ends (Value.Fits (calls.free machine.nextStorage)) (found value) := by
    cases value with
    | none => exact ends_fail rfl
    | some value => exact fits value rfl
  dsimp only
  split
  · exact ends_found _ (by simp)
  · exact ends_found _ (by simp)
  · exact ends_fail rfl

theorem ends_stackRegister (settled : machine.IsSettled calls floor) (register : StackRegister) :
    Ends (Value.Fits (calls.free machine.nextStorage)) (machine.stackRegister register) := by
  rw [stackRegister]
  split
  · exact settled.lastX
  · next depth _ =>
      split
      · next value found => exact ends_stackGet settled depth value found
      · exact ends_fail rfl

theorem ends_variableNamed (settled : machine.IsSettled calls floor) {name : List UInt8}
    (unreserved : name ∉ calls.names) :
    Ends (Value.Fits (calls.free machine.nextStorage)) (machine.variableNamed name) := by
  rw [variableNamed]
  split
  · next value found => exact settled.bindings.value unreserved value found
  · exact ends_fail rfl

theorem ordinary_recallOperand (settled : machine.IsSettled calls floor) (operand : Operand) :
    IsOrdinary (machine.recallOperand operand) := by
  cases operand with
  | number number => exact (ends_register settled _).isOrdinary
  | stack register => exact (ends_stackRegister settled register).isOrdinary
  | text name =>
      rw [recallOperand, variableNamed]
      split
      · trivial
      · exact ends_fail rfl

theorem ends_recallOperand (settled : machine.IsSettled calls floor) {operand : Operand}
    (unreserved : ∀ name, operand = .text name → name ∉ calls.names) :
    Ends (Value.Fits (calls.free machine.nextStorage)) (machine.recallOperand operand) := by
  cases operand with
  | number number => exact ends_register settled _
  | stack register => exact ends_stackRegister settled register
  | text name => exact ends_variableNamed settled (unreserved name rfl)

theorem ordinary_argumentOf (value : Value) : IsOrdinary (argumentOf value) := by
  cases value <;>
    first
    | exact ends_fail rfl
    | exact ends_ite (fun _ => ends_fail rfl) fun _ => trivial

theorem ordinary_resolve (settled : machine.IsSettled calls floor) (argument : Argument) :
    IsOrdinary (machine.resolve argument) := by
  unfold resolve
  split
  · exact (ordinary_recallOperand settled _).bind fun value _ => ordinary_argumentOf value
  · trivial

/-- Resolving an argument, with the fact that what it resolves to is spared. -/
theorem ends_resolve (settled : machine.IsSettled calls floor) {argument : Argument}
    (spares : machine.Avoids calls.names argument) :
    Ends (fun resolved => ∀ name, resolved = .direct (.text name) → name ∉ calls.names)
      (machine.resolve argument) := by
  have ordinary := ordinary_resolve settled argument
  have spares := spares
  unfold Avoids at spares
  cases resolved : machine.resolve argument with
  | error error =>
      rw [resolved] at ordinary
      exact ordinary
  | ok result =>
      rw [resolved] at spares
      rintro name rfl
      exact spares name rfl

theorem ends_numberArgument (settled : machine.IsSettled calls floor) (argument : Argument) :
    Ends (· < 2 ^ 32) (machine.numberArgument argument) := by
  refine (ordinary_resolve settled argument).bind fun resolved _ => ?_
  split
  · next number => exact number.toNat_lt
  · exact ends_fail rfl
  · exact ends_fail rfl

theorem ends_nameArgument (settled : machine.IsSettled calls floor) {argument : Argument}
    (spares : machine.Avoids calls.names argument) :
    Ends (fun name => name ∉ calls.names) (machine.nameArgument argument) := by
  refine (ends_resolve settled spares).bind fun resolved unreserved => ?_
  split
  · exact unreserved _ rfl
  · exact ends_fail rfl

theorem ordinary_labelArgument (settled : machine.IsSettled calls floor) (argument : Argument) :
    IsOrdinary (machine.labelArgument argument) := by
  refine (ordinary_resolve settled argument).bind fun resolved _ => ?_
  split
  · trivial
  · exact ends_fail rfl

theorem ordinary_shownArgument (settled : machine.IsSettled calls floor) (argument : Argument) :
    IsOrdinary (machine.shownArgument argument) := by
  refine (ordinary_resolve settled argument).bind fun resolved _ => ?_
  split <;> trivial

theorem ends_valueAt (settled : machine.IsSettled calls floor) {argument : Argument}
    (spares : machine.Avoids calls.names argument) :
    Ends (Value.Fits (calls.free machine.nextStorage)) (machine.valueAt argument) := by
  refine (ends_resolve settled spares).bind fun resolved unreserved => ?_
  split
  · next operand =>
      apply ends_recallOperand settled
      rintro name rfl
      exact unreserved name rfl
  · exact ends_fail rfl

theorem ordinary_cellOf (value : Value) : IsOrdinary (cellOf value) := by
  cases value <;> trivial

theorem ordinary_complexOf (value : Value) : IsOrdinary (complexOf value) := by
  cases value <;> trivial

/-! ## Writing -/

theorem stays_push {value : Value} (fits : value.Fits (calls.free floor)) :
    (push value).Stays calls floor fun _ _ => True :=
  stays_modify fun _ settled =>
    { settled with stack := settled.stack.push (fits.later settled.floor) }

theorem stays_setX {value : Value} (fits : value.Fits (calls.free floor)) :
    (setX value).Stays calls floor fun _ _ => True :=
  stays_modify fun _ settled =>
    { settled with stack := settled.stack.setX (fits.later settled.floor) }

theorem IsSettled.pushLifting (settled : machine.IsSettled calls floor) {value : Value}
    (fits : value.Fits (calls.free machine.nextStorage)) :
    (machine.pushLifting value).IsSettled calls floor := by
  have fitsStack : (machine.pushLifting value).stack.Fits (calls.free machine.nextStorage) := by
    rw [Machine.pushLifting]
    dsimp only
    split
    · exact settled.stack.setX fits
    · exact settled.stack.push fits
  exact { settled with stack := fitsStack }

theorem stays_pushLift {value : Value} (fits : value.Fits (calls.free floor)) :
    (pushLift value).Stays calls floor fun _ _ => True :=
  stays_modify fun _ settled => settled.pushLifting (fits.later settled.floor)

theorem stays_replaceX {x result : Value} (fitsX : x.Fits (calls.free floor))
    (fits : result.Fits (calls.free floor)) :
    (replaceX x result).Stays calls floor fun _ _ => True := by
  refine (stays_adopt fits).bind fun bound result le fits => ?_
  exact stays_modify fun machine settled =>
    { settled with
      lastX := fitsX.later (le.trans settled.floor)
      stack := settled.stack.setX (fits.later settled.floor) }

theorem stays_applyToX {f : Value → Outcome Value}
    (ends : ∀ (free : Nat → Prop) (x : Value), x.Fits free → Ends (Value.Fits free) (f x)) :
    (applyToX f).Stays calls floor fun _ _ => True := by
  refine stays_get fun machine settled => ?_
  refine stays_lift (ends_x settled) fun x fitsX => ?_
  refine stays_lift (ends _ x fitsX) fun result fits => ?_
  exact stays_replaceX fitsX fits

theorem stays_applyToYX {f : Value → Value → Outcome Value}
    (ends : ∀ (free : Nat → Prop) (y x : Value), y.Fits free → x.Fits free →
      Ends (Value.Fits free) (f y x)) :
    (applyToYX f).Stays calls floor fun _ _ => True := by
  refine stays_get fun machine settled => ?_
  refine stays_lift (Stack.ordinary_require _ _) fun _ _ => ?_
  refine stays_lift (ends_x settled) fun x fitsX => ?_
  refine stays_lift (ends_y settled) fun y fitsY => ?_
  refine stays_lift (ends _ y x fitsY fitsX) fun result fits => ?_
  refine (stays_adopt fits).bind fun bound result le fits => ?_
  refine stays_lift ((settled.stack.later le).replaceTop fits 2) fun stack fitsStack => ?_
  exact stays_modify fun machine settled =>
    { settled with
      lastX := fitsX.later (le.trans settled.floor)
      stack := fitsStack.later settled.floor }

theorem stays_applyKeepingY {f : Binary64 → Binary64 → Outcome Binary64}
    (ordinary : ∀ y x, IsOrdinary (f y x)) :
    (applyKeepingY f).Stays calls floor fun _ _ => True := by
  refine stays_get fun machine settled => ?_
  refine stays_lift (Stack.ordinary_require _ _) fun _ _ => ?_
  refine stays_lift (ends_x settled) fun x fitsX => ?_
  refine stays_lift (ends_y settled) fun y _ => ?_
  refine stays_lift (Value.ends_onReals ordinary y x)
    fun result (fits : result.Fits (calls.free machine.nextStorage)) => ?_
  exact stays_replaceX fitsX fits

/-! ## Variables and registers -/

/-- A value for a variable in which no call keeps anything. -/
theorem IsSettled.setVariable (settled : machine.IsSettled calls floor) {index : Nat}
    (isOpen : machine.bindings.IsOpen calls.names index) {value : Value}
    (fits : value.Fits (calls.free machine.nextStorage)) :
    ({ machine with bindings := machine.bindings.setValue index value } : Machine).IsSettled calls
      floor :=
  { settled with bindings := settled.bindings.setValue isOpen fits }

/-- A storage number that was just given out is free. -/
theorem free_newStorage (settled : machine.IsSettled calls floor) {count number : Nat}
    (low : machine.nextStorage ≤ number) (high : number < machine.nextStorage + count) :
    calls.free (machine.nextStorage + count) number :=
  ⟨high, fun member => (settled.taken number member).not_ge low⟩

/-- A changed array in a storage of its own, for a variable in which no call keeps anything. -/
theorem leads_setVariable (settled : machine.IsSettled calls floor) {index : Nat}
    (isOpen : machine.bindings.IsOpen calls.names index) {count : Nat} {changed : Nat → Value}
    (fits : (changed machine.nextStorage).Fits (calls.free (machine.nextStorage + count))) :
    (do setVariable index (changed (← newStorage count))).Leads machine
      (IsSettled calls floor) fun _ _ => True :=
  ⟨(settled.giveOut (Nat.le_add_right _ count)).setVariable isOpen fits, trivial⟩

theorem leads_storeRegister (settled : machine.IsSettled calls floor) (number : Nat) (value : Value) :
    (storeRegister number value).Leads machine (IsSettled calls floor) fun _ _ => True := by
  refine leads_get ?_
  refine leads_lift settled (ends_registers settled) ?_
  rintro ⟨index, registers⟩ ⟨isOpen, fits⟩
  have own : ∀ number ∈ some machine.nextStorage, calls.free (machine.nextStorage + 1) number := by
    simpa using free_newStorage settled le_rfl (Nat.lt_succ_self _)
  dsimp only at isOpen fits ⊢
  split
  · next storage grid =>
      refine leads_ite (fun _ => leads_fail settled rfl) fun _ => ?_
      refine leads_lift settled (ordinary_cellOf value) fun cell _ => ?_
      refine leads_lift settled (Grid.ends_set grid _ _ cell) fun changed same => ?_
      exact leads_setVariable settled isOpen
        (show Value.Fits _ (.realMatrix (some machine.nextStorage) changed) from ⟨own, same.1 ▸ same.2 ▸ fits.2⟩)
  · next storage grid =>
      refine leads_ite (fun _ => leads_fail settled rfl) fun _ => ?_
      refine leads_lift settled (ordinary_complexOf value) fun element _ => ?_
      refine leads_lift settled (Grid.ends_set grid _ _ element) fun changed same => ?_
      exact leads_setVariable settled isOpen
        (show Value.Fits _ (.complexMatrix (some machine.nextStorage) changed) from
          ⟨own, same.1 ▸ same.2 ▸ fits.2⟩)
  · exact leads_fail settled rfl

theorem leads_storeStackRegister (settled : machine.IsSettled calls floor) (register : StackRegister)
    {value : Value} (fits : value.Fits (calls.free machine.nextStorage)) :
    (storeStackRegister register value).Leads machine (IsSettled calls floor) fun _ _ => True := by
  refine leads_get ?_
  dsimp only
  split
  · exact ⟨{ settled with lastX := fits }, trivial⟩
  · next depth _ =>
      refine leads_ite (fun _ => leads_fail settled rfl) fun _ => ?_
      exact ⟨{ settled with stack := settled.stack.set fits depth }, trivial⟩

theorem leads_storeName (settled : machine.IsSettled calls floor) {name : List UInt8}
    (unreserved : name ∉ calls.names) {value : Value}
    (fits : value.Fits (calls.free machine.nextStorage)) :
    (storeName name value).Leads machine (IsSettled calls floor) fun _ _ => True := by
  refine leads_get ?_
  refine leads_lift settled
    (settled.bindings.store (IsSettled.globalLevel_le machine) unreserved fits _)
    fun bindings settledBindings => ?_
  exact ⟨{ settled with bindings := settledBindings }, trivial⟩

theorem leads_store (settled : machine.IsSettled calls floor) {argument : Argument}
    (spares : machine.Avoids calls.names argument) {value : Value}
    (fits : value.Fits (calls.free machine.nextStorage)) :
    (store argument value).Leads machine (IsSettled calls floor) fun _ _ => True := by
  refine leads_get ?_
  refine leads_lift settled (ends_resolve settled spares) fun resolved unreserved => ?_
  split
  · exact leads_storeRegister settled _ value
  · exact leads_storeStackRegister settled _ fits
  · exact leads_storeName settled (unreserved _ rfl) fits
  · exact leads_fail settled rfl

theorem leads_applyToStored (settled : machine.IsSettled calls floor) {argument : Argument}
    (spares : machine.Avoids calls.names argument) {f : Value → Value → Outcome Value}
    (ends : ∀ (free : Nat → Prop) (y x : Value), y.Fits free → x.Fits free →
      Ends (Value.Fits free) (f y x)) :
    (applyToStored f argument).Leads machine (IsSettled calls floor) fun _ _ => True := by
  refine leads_get ?_
  refine leads_lift settled (ends_valueAt settled spares) fun stored fitsStored => ?_
  refine leads_lift settled (ends_x settled) fun x fitsX => ?_
  refine leads_lift settled (ends _ stored x fitsStored fitsX) fun result fits => ?_
  obtain ⟨le, fitsNumbered⟩ := Value.fits_numbered settled.taken result fits
  refine leads_adopt ?_
  exact leads_store (settled.giveOut le) (spares.congr rfl rfl rfl rfl) fitsNumbered

theorem leads_applyToRecalled (settled : machine.IsSettled calls floor) {argument : Argument}
    (spares : machine.Avoids calls.names argument) {f : Value → Value → Outcome Value}
    (ends : ∀ (free : Nat → Prop) (y x : Value), y.Fits free → x.Fits free →
      Ends (Value.Fits free) (f y x)) :
    (applyToRecalled f argument).Leads machine (IsSettled calls floor) fun _ _ => True := by
  refine leads_get ?_
  refine leads_lift settled (ends_valueAt settled spares) fun recalled fitsRecalled => ?_
  refine leads_lift settled (ends_x settled) fun x fitsX => ?_
  refine leads_lift settled (ends _ x recalled fitsX fitsRecalled) fun result fits => ?_
  exact (stays_replaceX fitsX fits machine settled.raise).imp
    (fun _ settledAfter => settledAfter.lower settled.floor) fun _ _ _ holds => holds

end Machine

end Keystroke
