import Mathlib
import Keystroke.Machine.Operand
import Keystroke.Proofs.Actions
import Keystroke.Proofs.Calls.Outcomes
import Keystroke.Proofs.VariableTable

/-!
# Storing and recalling

Whatever is stored where an argument refers to is found there afterwards, and X, when it is what is stored,
stays as it is. A store that fails has changed nothing, and its error is one to be shown.
-/

namespace Keystroke

open Keystroke.Action Keystroke.Outcome

/-! ## Errors to be shown -/

namespace Outcome

variable {α : Type}

/-- An outcome is a result, or an error that is shown and no signal. -/
abbrev IsShown (outcome : Outcome α) : Prop :=
  EndsIn (fun error => error.kind.isSignal = false) (fun _ => True) outcome

theorem isShown_fail {kind : ErrorKind} (shown : kind.isSignal = false) :
    (fail kind : Outcome α).IsShown :=
  shown

theorem isShown_ok (result : α) : IsShown (.ok result) :=
  trivial

end Outcome

/-! ## Grids -/

namespace Grid

variable {α : Type} {grid changed : Grid α} {value : α}

/-- A number below the size of a grid is the place of a cell. -/
theorem inside_of_place {rows cols place : Nat} (inside : place < rows * cols) :
    place / cols < rows ∧ place % cols < cols := by
  have positive : 0 < cols := Nat.pos_of_mul_pos_left (Nat.zero_lt_of_lt inside)
  exact ⟨Nat.div_lt_of_lt_mul (Nat.mul_comm rows cols ▸ inside), Nat.mod_lt _ positive⟩

/-- The cells of a grid by their places in row-by-row order. -/
theorem get?_of_place {place : Nat} (inside : place < grid.rows * grid.cols) :
    grid.get? (place / grid.cols) (place % grid.cols) = some (grid.cells[place]) := by
  have row := inside_of_place inside
  rw [get?, dif_pos row]
  congr 1
  exact getElem_congr_idx (Nat.div_add_mod' place grid.cols)

theorem exists_set_of_place {place : Nat} (inside : place < grid.rows * grid.cols) (value : α) :
    grid.set (place / grid.cols) (place % grid.cols) value =
      .ok { grid with cells := grid.cells.set place value } := by
  have row := inside_of_place inside
  rw [set, dif_pos row]
  congr 3
  exact Nat.div_add_mod' place grid.cols

end Grid

/-! ## Variables -/

theorem lastIndex?_modify {α : Type} {property : α → Bool} {change : α → α}
    (same : ∀ item, property (change item) = property item) (items : List α) (index : Nat) :
    lastIndex? property (items.modify index change) = lastIndex? property items := by
  induction items generalizing index with
  | nil => rw [List.modify_nil]
  | cons first rest ih =>
      cases index with
      | zero => rw [List.modify_zero_cons, lastIndex?, lastIndex?, same]
      | succ index => rw [List.modify_succ_cons, lastIndex?, lastIndex?, ih]

namespace Variables

variable {table after : Variables} {name : List UInt8} {value : Value} {level : Int}

/-- The position that a name means is in the table. -/
theorem exists_get?_of_lookup? {index : Nat} (found : table.lookup? name level = some index) :
    ∃ entry, table.get? index = some entry := by
  obtain ⟨front, entry, behind, entries, rfl, -⟩ := exists_split_of_lastIndex? found
  exact ⟨entry, by simp [get?, entries]⟩

theorem lookup?_setValue (index : Nat) (value : Value) :
    (table.setValue index value).lookup? name level = table.lookup? name level := by
  apply lastIndex?_modify
  intro entry
  rfl

theorem get?_setValue {index : Nat} {entry : Variable} (found : table.get? index = some entry)
    (value : Value) : (table.setValue index value).get? index = some { entry with value } := by
  rw [get?] at found
  simp [setValue, modify, get?, found]

/-- A new global has its value at every level. -/
theorem value?_insertGlobal (unbound : table.lookup? name level = none) (value : Value) :
    (table.insertGlobal name value).value? name level = some value := by
  have absent := lastIndex?_eq_none.mp unbound
  have found : (table.insertGlobal name value).lookup? name level =
      some (table.entries.takeWhile Variable.isGlobal).length := by
    refine lastIndex?_append_cons (by simp [Variable.isSeenFrom, Variable.has]) fun later member => ?_
    exact absent later (List.dropWhile_subset _ member)
  rw [value?, found]
  simp [get?, insertGlobal]

/-- A name has the value that was stored in it. -/
theorem value?_of_store (stored : table.store name value level = .ok after) :
    after.value? name level = some value := by
  rw [store] at stored
  cases allowed : Variable.checkName name with
  | error error => simp [allowed, bind, Except.bind] at stored
  | ok _ =>
      cases found : table.lookup? name level with
      | none =>
          simp only [allowed, found, bind, Except.bind, pure, Except.pure, Except.ok.injEq] at stored
          rw [← stored, value?_insertGlobal found]
      | some index =>
          simp only [allowed, found, bind, Except.bind, pure, Except.pure, Except.ok.injEq] at stored
          obtain ⟨entry, held⟩ := exists_get?_of_lookup? found
          rw [← stored, value?, lookup?_setValue, found, Option.bind_some, get?_setValue held]
          rfl

end Variables

namespace Stack

variable {stack : Stack} {value : Value}

theorem x_setX (stack : Stack) (value : Value) : (stack.setX value).x = .ok value := by
  rcases values : stack.values with _ | ⟨x, rest⟩ <;> simp [setX, values, push, Stack.x]

/-- X in place of itself. -/
theorem setX_of_x (top : stack.x = .ok value) : stack.setX value = stack := by
  rcases values : stack.values with _ | ⟨x, rest⟩
  · simp [Stack.x, values, fail] at top
  · simp only [Stack.x, values, Except.ok.injEq] at top
    rw [setX, values, ← top]
    exact congrArg (Stack.mk stack.isBig) values.symm

/-- X stays as it is when its value is put anywhere on the stack. -/
theorem x_set (top : stack.x = .ok value) (distance : Nat) : (stack.set distance value).x = .ok value := by
  rcases values : stack.values with _ | ⟨x, rest⟩
  · simp [Stack.x, values, fail] at top
  · cases distance <;> simp_all [Stack.x, set]

end Stack

/-! ## Actions that change nothing when they fail -/

namespace Action

variable {α β : Type}

/-- When the action has failed, the machine is as it was and the error is one to be shown. -/
def FailsCleanly (action : Action α) : Prop :=
  ∀ {machine error left}, action.on machine = (.error error, left) →
    left = machine ∧ error.kind.isSignal = false

theorem failsCleanly_get {next : Machine → Action α} (clean : ∀ machine, (next machine).FailsCleanly) :
    (get >>= next).FailsCleanly := by
  intro machine error left fails
  rw [on_bind_ok (on_get machine)] at fails
  exact clean machine fails

theorem failsCleanly_lift {outcome : Outcome α} (shown : outcome.IsShown) :
    (liftM outcome : Action α).FailsCleanly := by
  intro machine error left fails
  rw [on_lift] at fails
  cases fails
  exact ⟨rfl, shown⟩

/-- What is found out first leaves the machine to what comes next. -/
theorem failsCleanly_lift_bind {outcome : Outcome α} {next : α → Action β} (shown : outcome.IsShown)
    (clean : ∀ result, (next result).FailsCleanly) : (liftM outcome >>= next).FailsCleanly := by
  intro machine error left fails
  cases outcome with
  | ok result =>
      rw [on_bind_ok (on_lift machine _)] at fails
      exact clean result fails
  | error found =>
      rw [on_bind_error (on_lift machine _)] at fails
      cases fails
      exact ⟨rfl, shown⟩

theorem failsCleanly_ite {condition : Prop} [Decidable condition] {first second : Action α}
    (yes : first.FailsCleanly) (no : second.FailsCleanly) :
    (if condition then first else second).FailsCleanly := by
  split
  · exact yes
  · exact no

/-- An action that never fails. -/
theorem failsCleanly_of_ok {action : Action α}
    (succeeds : ∀ machine, ∃ result, (action.on machine).1 = .ok result) : action.FailsCleanly := by
  intro machine error left fails
  obtain ⟨result, ends⟩ := succeeds machine
  rw [fails] at ends
  cases ends

variable {machine after : Machine} {result : β}

/-- An action that has ended well has found what it began with. -/
theorem exists_found {outcome : Outcome α} {next : α → Action β}
    (ends : (liftM outcome >>= next).on machine = (.ok result, after)) :
    ∃ found, outcome = .ok found ∧ (next found).on machine = (.ok result, after) := by
  cases outcome with
  | ok found => exact ⟨found, rfl, by rwa [on_bind_ok (on_lift machine _)] at ends⟩
  | error error =>
      rw [on_bind_error (on_lift machine _)] at ends
      cases ends

/-- An action that has ended well has passed the check in front of it. -/
theorem passes_of_ok {condition : Prop} [Decidable condition] {kind : ErrorKind} {first : Action β}
    (ends : (if condition then liftM (fail kind : Outcome α) >>= fun _ => first else first).on machine =
      (.ok result, after)) :
    ¬ condition ∧ first.on machine = (.ok result, after) := by
  by_cases holds : condition
  · rw [if_pos holds] at ends
    cases ends
  · rw [if_neg holds] at ends
    exact ⟨holds, ends⟩

end Action

namespace Machine

variable {machine after : Machine} {argument : Argument} {operand : Operand} {value : Value}

theorem isShown_registers (machine : Machine) : machine.registers.IsShown := by
  rw [registers]
  split
  · exact isShown_ok _
  · exact isShown_fail rfl

theorem isShown_cellOf (value : Value) : (cellOf value).IsShown := by
  cases value with
  | real | text => exact isShown_ok _
  | _ => exact rfl

theorem isShown_complexOf (value : Value) : (complexOf value).IsShown := by
  cases value with
  | real | complex => exact isShown_ok _
  | _ => exact rfl

theorem isShown_set {α : Type} (grid : Grid α) (i j : Nat) (value : α) : (grid.set i j value).IsShown := by
  rw [Grid.set]
  split
  · exact isShown_ok _
  · exact isShown_fail rfl

theorem isShown_register (machine : Machine) (number : Nat) : (machine.register number).IsShown := by
  rw [register]
  refine (isShown_registers machine).bind fun place _ => ?_
  obtain ⟨index, held⟩ := place
  dsimp only
  split
  · split
    · exact isShown_ok _
    · exact isShown_fail rfl
  · split
    · exact isShown_ok _
    · exact isShown_fail rfl
  · exact isShown_fail rfl

theorem isShown_stackRegister (machine : Machine) (register : StackRegister) :
    (machine.stackRegister register).IsShown := by
  rw [stackRegister]
  split
  · exact isShown_ok _
  · split
    · exact isShown_ok _
    · exact isShown_fail rfl

theorem isShown_recallOperand (machine : Machine) (operand : Operand) :
    (machine.recallOperand operand).IsShown := by
  cases operand with
  | number number => exact isShown_register machine _
  | stack register => exact isShown_stackRegister machine register
  | text name =>
      rw [recallOperand, variableNamed]
      split
      · exact isShown_ok _
      · exact isShown_fail rfl

theorem isShown_argumentOf (value : Value) : (argumentOf value).IsShown := by
  cases value with
  | real x => exact ends_ite (fun _ => isShown_fail rfl) fun _ => isShown_ok _
  | text bytes => exact ends_ite (fun _ => isShown_fail rfl) fun _ => isShown_ok _
  | _ => exact isShown_fail rfl

theorem isShown_resolve (machine : Machine) (argument : Argument) : (machine.resolve argument).IsShown := by
  cases argument with
  | indirect operand =>
      exact (isShown_recallOperand machine operand).bind fun value _ => isShown_argumentOf value
  | _ => exact isShown_ok _

theorem isShown_storeVariable (table : Variables) (name : List UInt8) (value : Value) (level : Int) :
    (table.store name value level).IsShown := by
  have named : (Variable.checkName name).IsShown :=
    ends_ite (fun _ => rfl) fun _ => ends_ite (fun _ => isShown_fail rfl) fun _ => isShown_ok _
  refine named.bind fun _ _ => ?_
  split
  · exact isShown_ok _
  · exact isShown_ok _

theorem failsCleanly_storeRegister (number : Nat) (value : Value) :
    (storeRegister number value).FailsCleanly := by
  refine failsCleanly_get fun machine => failsCleanly_lift_bind (isShown_registers machine) fun found => ?_
  obtain ⟨index, registers⟩ := found
  dsimp only
  split
  · refine failsCleanly_ite (failsCleanly_lift_bind (isShown_fail rfl) fun _ => ?_) ?_
    all_goals
      refine failsCleanly_lift_bind (isShown_cellOf value) fun cell => ?_
      refine failsCleanly_lift_bind (isShown_set _ _ _ cell) fun changed => ?_
      exact failsCleanly_of_ok fun machine => ⟨(), rfl⟩
  · refine failsCleanly_ite (failsCleanly_lift_bind (isShown_fail rfl) fun _ => ?_) ?_
    all_goals
      refine failsCleanly_lift_bind (isShown_complexOf value) fun element => ?_
      refine failsCleanly_lift_bind (isShown_set _ _ _ element) fun changed => ?_
      exact failsCleanly_of_ok fun machine => ⟨(), rfl⟩
  · exact failsCleanly_lift (isShown_fail rfl)

theorem failsCleanly_storeStackRegister (register : StackRegister) (value : Value) :
    (storeStackRegister register value).FailsCleanly := by
  refine failsCleanly_get fun machine => ?_
  split
  · exact failsCleanly_of_ok fun machine => ⟨(), rfl⟩
  · refine failsCleanly_ite (failsCleanly_lift_bind (isShown_fail rfl) fun _ => ?_) ?_
    all_goals exact failsCleanly_of_ok fun machine => ⟨(), rfl⟩

theorem failsCleanly_storeName (name : List UInt8) (value : Value) : (storeName name value).FailsCleanly :=
  failsCleanly_get fun machine =>
    failsCleanly_lift_bind (isShown_storeVariable _ name value machine.level) fun _ =>
      failsCleanly_of_ok fun _ => ⟨(), rfl⟩

/-- A store that fails changes nothing. -/
theorem failsCleanly_store (argument : Argument) (value : Value) : (store argument value).FailsCleanly := by
  refine failsCleanly_get fun machine =>
    failsCleanly_lift_bind (isShown_resolve machine argument) fun place => ?_
  split
  · exact failsCleanly_storeRegister _ value
  · exact failsCleanly_storeStackRegister _ value
  · exact failsCleanly_storeName _ value
  · exact failsCleanly_lift (isShown_fail rfl)

/-! ## What is stored -/

/-- An array of registers, and the array after a value was put into one of them. -/
inductive IsWritten (place : Nat) (value : Value) : Value → Value → Prop
  | real {storage own : Storage} {grid : Grid Cell} {cell : Cell}
      (inside : place < grid.rows * grid.cols) (becomes : cellOf value = .ok cell) :
      IsWritten place value (.realMatrix storage grid)
        (.realMatrix own { grid with cells := grid.cells.set place cell })
  | complex {storage own : Storage} {grid : Grid ComplexNumber} {element : ComplexNumber}
      (inside : place < grid.rows * grid.cols) (becomes : complexOf value = .ok element) :
      IsWritten place value (.complexMatrix storage grid)
        (.complexMatrix own { grid with cells := grid.cells.set place element })

/-- What a machine comes to when a value is stored at an operand. -/
inductive Stores (machine : Machine) (value : Value) : Operand → Machine → Prop
  | register {number : UInt32} {index : Nat} {held changed : Value}
      (found : machine.registers = .ok (index, held))
      (written : IsWritten number.toNat value held changed) :
      Stores machine value (.number number)
        { machine with
          bindings := machine.bindings.setValue index changed
          nextStorage := machine.nextStorage + 1 }
  | lastX {register : StackRegister} (outside : register.depth? = none) :
      Stores machine value (.stack register) { machine with lastX := value }
  | level {register : StackRegister} {depth : Nat} (stands : register.depth? = some depth)
      (inside : depth < machine.stack.depth) :
      Stores machine value (.stack register) { machine with stack := machine.stack.set depth value }
  | variable {name : List UInt8} {bindings : Variables}
      (stored : machine.bindings.store name value machine.level = .ok bindings) :
      Stores machine value (.text name) { machine with bindings }

theorem stores_of_storeRegister {number : UInt32}
    (stores : (storeRegister number.toNat value).on machine = (.ok (), after)) :
    machine.Stores value (.number number) after := by
  rw [storeRegister, on_bind_ok (on_get machine)] at stores
  obtain ⟨⟨index, held⟩, found, stores⟩ := exists_found stores
  dsimp only at stores
  split at stores
  · next storage grid =>
      obtain ⟨inside, stores⟩ := passes_of_ok stores
      obtain ⟨cell, becomes, stores⟩ := exists_found stores
      rw [Grid.exists_set_of_place (not_le.mp inside), on_bind_ok (on_lift machine _)] at stores
      cases stores
      exact .register found (.real (not_le.mp inside) becomes)
  · next storage grid =>
      obtain ⟨inside, stores⟩ := passes_of_ok stores
      obtain ⟨element, becomes, stores⟩ := exists_found stores
      rw [Grid.exists_set_of_place (not_le.mp inside), on_bind_ok (on_lift machine _)] at stores
      cases stores
      exact .register found (.complex (not_le.mp inside) becomes)
  · cases stores

theorem stores_of_storeStackRegister {register : StackRegister}
    (stores : (storeStackRegister register value).on machine = (.ok (), after)) :
    machine.Stores value (.stack register) after := by
  rw [storeStackRegister, on_bind_ok (on_get machine)] at stores
  split at stores
  · next outside =>
      cases stores
      exact .lastX outside
  · next depth stands =>
      obtain ⟨inside, stores⟩ := passes_of_ok stores
      cases stores
      exact .level stands (not_le.mp inside)

theorem stores_of_storeName {name : List UInt8}
    (stores : (storeName name value).on machine = (.ok (), after)) :
    machine.Stores value (.text name) after := by
  rw [storeName, on_bind_ok (on_get machine)] at stores
  obtain ⟨bindings, stored, stores⟩ := exists_found stores
  cases stores
  exact .variable stored

/-- A store that succeeds has stored the value at what its argument resolves to. -/
theorem exists_stores (stores : (store argument value).on machine = (.ok (), after)) :
    ∃ operand, machine.resolve argument = .ok (.direct operand) ∧
      machine.Stores value operand after := by
  rw [store, on_bind_ok (on_get machine)] at stores
  obtain ⟨place, resolved, stores⟩ := exists_found stores
  split at stores
  · exact ⟨_, resolved, stores_of_storeRegister stores⟩
  · exact ⟨_, resolved, stores_of_storeStackRegister stores⟩
  · exact ⟨_, resolved, stores_of_storeName stores⟩
  · cases stores

/-! ## What is recalled -/

theorem registers_of_lookup? (machine : Machine) {index : Nat}
    (position : machine.bindings.lookup? registersName machine.level = some index) :
    machine.registers =
      .ok (index, ((machine.bindings.get? index).map Variable.value).getD .null) := by
  rw [registers, position]

/-- The registers after their variable was given another value. -/
theorem registers_setValue {index : Nat} {held : Value}
    (found : machine.registers = .ok (index, held)) (changed : Value) (nextStorage : Nat) :
    ({ machine with bindings := machine.bindings.setValue index changed, nextStorage } : Machine).registers =
      .ok (index, changed) := by
  cases position : machine.bindings.lookup? registersName machine.level with
  | none => simp [registers, position, fail] at found
  | some place =>
      obtain ⟨entry, holds⟩ := Variables.exists_get?_of_lookup? position
      simp only [registers_of_lookup? machine position, Except.ok.injEq, Prod.mk.injEq] at found
      obtain ⟨rfl, -⟩ := found
      have same : (machine.bindings.setValue place changed).lookup? registersName machine.level =
          some place := by
        rw [Variables.lookup?_setValue, position]
      have registers := registers_of_lookup?
        { machine with bindings := machine.bindings.setValue place changed, nextStorage } same
      rw [registers, Variables.get?_setValue holds]
      rfl

theorem register_real {index number : Nat} {storage : Storage} {grid : Grid Cell}
    (found : machine.registers = .ok (index, .realMatrix storage grid))
    (inside : number < grid.rows * grid.cols) :
    machine.register number = .ok (.ofCell grid.cells[number]) := by
  rw [register, found]
  dsimp only [bind, Except.bind]
  rw [gridAt, Grid.get?_of_place inside]
  rfl

theorem register_complex {index number : Nat} {storage : Storage} {grid : Grid ComplexNumber}
    (found : machine.registers = .ok (index, .complexMatrix storage grid))
    (inside : number < grid.rows * grid.cols) :
    machine.register number = .ok (.complex grid.cells[number]) := by
  rw [register, found]
  dsimp only [bind, Except.bind]
  rw [gridAt, Grid.get?_of_place inside]
  rfl

/-- How a value is given back by what an operand names: complex registers hold complex numbers only. -/
def heldAs (machine : Machine) : Operand → Value → Value
  | .number _, .real x =>
    match machine.registers with
    | .ok (_, .complexMatrix _ _) => .complex ⟨x, 0⟩
    | _ => .real x
  | _, value => value

namespace Stores

theorem x (stores : machine.Stores value operand after) (top : machine.stack.x = .ok value) :
    after.stack.x = .ok value := by
  cases stores with
  | register | lastX | «variable» => exact top
  | level => exact Stack.x_set top _

theorem prompt (stores : machine.Stores value operand after) : after.prompt = machine.prompt := by
  cases stores <;> rfl

/-- What was stored is recalled. -/
theorem recallOperand (stores : machine.Stores value operand after) :
    after.recallOperand operand = .ok (machine.heldAs operand value) := by
  cases stores with
  | @register number index held changed found written =>
      have registers := registers_setValue found changed (machine.nextStorage + 1)
      rw [Machine.recallOperand]
      cases written with
      | real inside becomes =>
          rw [register_real registers inside, Vector.getElem_set_self]
          cases value with
          | real x =>
              cases becomes
              rw [heldAs, found]
              rfl
          | text bytes =>
              cases becomes
              rfl
          | _ => cases becomes
      | complex inside becomes =>
          rw [register_complex registers inside, Vector.getElem_set_self]
          cases value with
          | real x =>
              cases becomes
              rw [heldAs, found]
          | complex z =>
              cases becomes
              rfl
          | _ => cases becomes
  | @lastX register outside =>
      rw [Machine.recallOperand, stackRegister, outside]
      rfl
  | @level register depth stands inside =>
      have held : (machine.stack.set depth value).get? depth = some value := by
        rw [Stack.get?, Stack.set, List.getElem?_set_self inside]
      rw [Machine.recallOperand, stackRegister, stands]
      dsimp only
      rw [held]
      rfl
  | @«variable» name bindings stored =>
      have held : ({ machine with bindings } : Machine).recallName name = some value :=
        Variables.value?_of_store stored
      rw [Machine.recallOperand, variableNamed, held]
      rfl

end Stores

end Machine

end Keystroke
