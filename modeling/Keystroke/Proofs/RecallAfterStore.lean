import Mathlib
import Keystroke.Proofs.Storing

/-!
# What is recalled after a store

A store writes in one place: a register, a level of the stack, the last X or a variable. What was stored is
recalled from there, and everything else is recalled as before. The registers are cells of a matrix, so two
numbers are two cells, and a number that cannot be stored in cannot be recalled.
-/

namespace Keystroke

open Keystroke.Action Keystroke.Outcome

/-! ## Cells of a matrix -/

namespace Grid

variable {α : Type} {grid : Grid α}

/-- Two places have two cells. -/
theorem place_injective {cols first second : Nat}
    (same : (first / cols, first % cols) = (second / cols, second % cols)) : first = second := by
  obtain ⟨row, col⟩ := Prod.mk.inj same
  rw [← Nat.div_add_mod first cols, ← Nat.div_add_mod second cols, row, col]

/-- Behind the last place there is no cell. -/
theorem get?_of_outside {place : Nat} (outside : grid.rows * grid.cols ≤ place) :
    grid.get? (place / grid.cols) (place % grid.cols) = none := by
  rw [get?, dif_neg]
  rintro ⟨row, -⟩
  exact absurd row (not_lt.mpr ((Nat.le_div_iff_mul_le grid.cols_pos).mpr outside))

/-- What is read from a cell after another value was put at a place. -/
theorem get?_put {place : Nat} (inside : place < grid.rows * grid.cols) (value : α) (row col : Nat) :
    ({ grid with cells := grid.cells.set place value } : Grid α).get? row col =
      if (row, col) = (place / grid.cols, place % grid.cols) then some value else grid.get? row col := by
  have samePlace (within : col < grid.cols) :
      (row, col) = (place / grid.cols, place % grid.cols) ↔ place = row * grid.cols + col := by
    constructor
    · rintro ⟨⟩
      exact (Nat.div_add_mod' place grid.cols).symm
    · rintro rfl
      rw [Nat.mul_comm, Nat.mul_add_div grid.cols_pos, Nat.mul_add_mod, Nat.mod_eq_of_lt within,
        Nat.div_eq_of_lt within, Nat.add_zero]
  simp only [get?]
  split
  · next within =>
      simp only [Vector.get_eq_getElem, Vector.getElem_set, samePlace within.2]
      split <;> rfl
  · next outside =>
      rw [if_neg]
      rintro ⟨⟩
      exact outside (inside_of_place inside)

end Grid

namespace Value

/-- The rows and columns of a matrix. -/
def shape? : Value → Option (Nat × Nat)
  | .realMatrix _ grid => some (grid.rows, grid.cols)
  | .complexMatrix _ grid => some (grid.rows, grid.cols)
  | _ => none

/-- The element of a matrix in a row and column. -/
def matrixElement? (value : Value) (row col : Nat) : Option Value :=
  match value with
  | .realMatrix _ grid => (grid.get? row col).map .ofCell
  | .complexMatrix _ grid => (grid.get? row col).map .complex
  | _ => none

/-- Whether a value is of a kind that the elements of an array can have. -/
def suits (value : Value) : Value → Bool
  | .realMatrix _ _ => (Machine.cellOf value).isOk
  | .complexMatrix _ _ => (Machine.complexOf value).isOk
  | _ => false

theorem cols_pos_of_shape? {value : Value} {rows cols : Nat} (shape : value.shape? = some (rows, cols)) :
    0 < cols := by
  cases value with
  | realMatrix storage grid | complexMatrix storage grid =>
      cases shape
      exact grid.cols_pos
  | _ => cases shape

/-- A matrix before and after a value was put into one of its cells. -/
structure RewritesCell (held changed : Value) (row col : Nat) (value : Value) : Prop where
  kind : changed.typeCode = held.typeCode
  shape : changed.shape? = held.shape?
  here : changed.matrixElement? row col = some value
  others : ∀ otherRow otherCol, (otherRow, otherCol) ≠ (row, col) →
    changed.matrixElement? otherRow otherCol = held.matrixElement? otherRow otherCol

end Value

/-! ## The table of variables -/

namespace Variables

variable {table after : Variables} {name other : List UInt8} {value : Value} {level otherLevel : Int}

/-- What a name means is the value of its last entry that is seen. -/
theorem value?_eq_getLast? (table : Variables) (name : List UInt8) (level : Int) :
    table.value? name level =
      (table.entries.filter fun entry => entry.name == name && entry.isSeenFrom level).getLast?.map
        Variable.value := by
  rw [value?, lookup?]
  cases found : lastIndex? (fun entry : Variable => entry.name == name && entry.isSeenFrom level)
      table.entries with
  | none =>
      have unseen := lastIndex?_eq_none.mp found
      rw [List.filter_eq_nil_iff.mpr fun entry member => by simp [unseen entry member]]
      rfl
  | some index =>
      obtain ⟨front, entry, behind, entries, rfl, holds, last⟩ := exists_split_of_lastIndex? found
      have noneBehind : behind.filter
          (fun entry => entry.name == name && entry.isSeenFrom level) = [] :=
        List.filter_eq_nil_iff.mpr fun entry member => by simp [last entry member]
      simp only [Option.bind_some, get?, entries, List.filter_append, List.filter_cons, holds, if_true,
        noneBehind, List.getLast?_append_cons, List.getLast?_singleton]
      simp

/-- What a position does not belong to is as it was when the value at the position has changed. -/
theorem value?_setValue_of_ne {index : Nat} (elsewhere : table.lookup? name level ≠ some index)
    (value : Value) : (table.setValue index value).value? name level = table.value? name level := by
  rw [value?, value?, lookup?_setValue]
  cases found : table.lookup? name level with
  | none => rfl
  | some position =>
      have distinct : index ≠ position := fun same => elsewhere (by rw [found, same])
      have same : (table.setValue index value).get? position = table.get? position := by
        simp [get?, setValue, modify, distinct]
      rw [Option.bind_some, Option.bind_some, same]

/-- Two names are at two positions. -/
theorem name_eq_of_lookup? {index : Nat} (found : table.lookup? name level = some index)
    (otherFound : table.lookup? other otherLevel = some index) : other = name := by
  obtain ⟨front, entry, behind, entries, rfl, named, -⟩ := exists_split_of_lastIndex? found
  obtain ⟨otherFront, otherEntry, otherBehind, otherEntries, length, otherNamed, -⟩ :=
    exists_split_of_lastIndex? otherFound
  obtain ⟨-, same⟩ := List.append_inj (entries.symm.trans otherEntries) length.symm
  simp only [Bool.and_eq_true, beq_iff_eq] at named otherNamed
  rw [← named.1, ← otherNamed.1, (List.cons.inj same).1]

/-- A store changes the value that the name has, or makes a global. -/
theorem store_eq_ok (stored : table.store name value level = .ok after) :
    (∃ index, table.lookup? name level = some index ∧ table.setValue index value = after) ∨
      table.lookup? name level = none ∧ table.insertGlobal name value = after := by
  rw [store] at stored
  cases allowed : Variable.checkName name with
  | error error => simp [allowed, bind, Except.bind] at stored
  | ok _ =>
      cases found : table.lookup? name level with
      | none =>
          simp only [allowed, found, bind, Except.bind, pure, Except.pure, Except.ok.injEq] at stored
          exact .inr ⟨rfl, stored⟩
      | some index =>
          simp only [allowed, found, bind, Except.bind, pure, Except.pure, Except.ok.injEq] at stored
          exact .inl ⟨index, rfl, stored⟩

/-- A new global means nothing to other names. -/
theorem value?_insertGlobal_of_ne (distinct : other ≠ name) (value : Value) (level : Int) :
    (table.insertGlobal name value).value? other level = table.value? other level := by
  have parts := List.takeWhile_append_dropWhile (p := Variable.isGlobal) (l := table.entries)
  rw [value?_eq_getLast?, value?_eq_getLast?]
  conv_rhs => rw [← parts]
  simp only [insertGlobal, List.filter_append, List.filter_cons, beq_eq_false_iff_ne.mpr distinct.symm,
    Bool.false_and, Bool.false_eq_true, if_false]

/-- What is seen of a name from a call is seen when there is a new global of this name, if it was not seen
from everywhere. -/
theorem value?_insertGlobal_of_unseen (unbound : table.lookup? name level = none) {depth : Nat}
    {seen : Value} (bound : table.value? name depth = some seen) (value : Value) :
    (table.insertGlobal name value).value? name depth = some seen := by
  have parts := List.takeWhile_append_dropWhile (p := Variable.isGlobal) (l := table.entries)
  have unseen := lastIndex?_eq_none.mp unbound
  -- An entry that only the call sees is private to its level, so it is none of the globals.
  have noGlobal : (table.entries.takeWhile Variable.isGlobal).filter
      (fun entry => entry.name == name && entry.isSeenFrom depth) = [] := by
    refine List.filter_eq_nil_iff.mpr fun entry member seenHere => ?_
    have isGlobal : entry.level = -1 := by
      simpa [Variable.isGlobal, Variable.globalLevel] using List.mem_takeWhile_imp member
    have hidden := unseen entry (List.takeWhile_subset _ member)
    simp only [Variable.isSeenFrom, Bool.and_eq_true, Bool.or_eq_true, beq_iff_eq] at seenHere
    simp only [Variable.isSeenFrom, seenHere.1, beq_self_eq_true, Bool.true_and, Bool.or_eq_false_iff]
      at hidden
    rcases seenHere.2 with shared | own
    · simp [shared] at hidden
    · omega
  rw [value?_eq_getLast?, ← parts, List.filter_append, noGlobal, List.nil_append] at bound
  rw [value?_eq_getLast?]
  simp only [insertGlobal, List.filter_append, noGlobal, List.nil_append]
  rw [List.filter_cons]
  split
  · rw [List.getLast?_cons]
    cases last : ((table.entries.dropWhile Variable.isGlobal).filter
        fun entry => entry.name == name && entry.isSeenFrom depth).getLast? with
    | none => simp [last] at bound
    | some entry => simpa [last] using bound
  · exact bound

end Variables

/-! ## Places in a machine -/

/-- The variable in which an operand stands. -/
def Operand.variableName? : Operand → Option (List UInt8)
  | .number _ => some Machine.registersName
  | .stack _ => none
  | .text name => some name

namespace StackRegister

/-- Two registers of the stack are two levels. -/
theorem eq_of_depth? {first second : StackRegister} (same : first.depth? = second.depth?) :
    first = second := by
  cases first <;> cases second <;> first | rfl | cases same

end StackRegister

namespace Machine

variable {machine after : Machine} {operand : Operand} {value : Value}

/-- The machine after something was stored at an operand recalls everything else as before: the other
operands, all levels of the stack, and all variables from every level, those with the same name that are not
in view from here too. -/
structure RecallsOthers (machine : Machine) (operand : Operand) (after : Machine) : Prop where
  operands : ∀ other, other ≠ operand → other ≠ .text registersName →
    after.recallOperand other = machine.recallOperand other
  mode : after.stack.isBig = machine.stack.isBig
  levels : ∀ distance, (∀ register, operand = .stack register → register.depth? ≠ some distance) →
    after.stack.get? distance = machine.stack.get? distance
  names : ∀ name level, operand.variableName? ≠ some name →
    after.bindings.value? name level = machine.bindings.value? name level
  namesakes : ∀ name (depth : Nat) value, operand.variableName? = some name →
    machine.bindings.lookup? name depth ≠ machine.bindings.lookup? name machine.level →
    machine.bindings.value? name depth = some value → after.bindings.value? name depth = some value
  rest : after =
    { machine with
      bindings := after.bindings
      nextStorage := after.nextStorage
      stack := after.stack
      lastX := after.lastX }

/-- A register is recalled from the value that the name of the registers means. -/
theorem register_eq (machine : Machine) (number : Nat) :
    machine.register number =
      match machine.recallName registersName with
      | none => fail .sizeError
      | some held =>
        match held.shape? with
        | none => fail .invalidType
        | some (_, cols) =>
          match held.matrixElement? (number / cols) (number % cols) with
          | none => fail .sizeError
          | some element => .ok element := by
  rw [register, recallName, Variables.value?]
  cases found : machine.bindings.lookup? registersName machine.level with
  | none => rw [registers, found]; rfl
  | some index =>
      obtain ⟨entry, held⟩ := Variables.exists_get?_of_lookup? found
      rw [registers_of_lookup? machine found, Option.bind_some, held]
      simp only [Option.map_some, Option.getD_some]
      cases entry.value with
      | realMatrix storage grid | complexMatrix storage grid =>
          simp only [Value.shape?, Value.matrixElement?, gridAt, bind, Except.bind]
          cases grid.get? (number / grid.cols) (number % grid.cols) <;> rfl
      | _ => rfl

theorem recallName_of_registers {index : Nat} {held : Value}
    (found : machine.registers = .ok (index, held)) :
    machine.bindings.lookup? registersName machine.level = some index ∧
      machine.recallName registersName = some held := by
  rw [recallName, Variables.value?]
  cases position : machine.bindings.lookup? registersName machine.level with
  | none => simp [registers, position, fail] at found
  | some place =>
      obtain ⟨entry, holds⟩ := Variables.exists_get?_of_lookup? position
      simp only [registers_of_lookup? machine position, holds, Option.map_some, Option.getD_some,
        Except.ok.injEq, Prod.mk.injEq] at found
      rw [Option.bind_some, holds, ← found.1, ← found.2]
      exact ⟨rfl, rfl⟩

/-- A value in a register is rewritten in one cell of the matrix. -/
theorem IsWritten.rewritesCell {index : Nat} {number : UInt32} {held changed : Value} {rows cols : Nat}
    (found : machine.registers = .ok (index, held)) (written : IsWritten number.toNat value held changed)
    (shape : held.shape? = some (rows, cols)) :
    held.RewritesCell changed (number.toNat / cols) (number.toNat % cols)
      (machine.heldAs (.number number) value) := by
  cases written with
  | @real storage own grid cell inside becomes =>
      cases shape
      have same : machine.heldAs (.number number) value = value := by
        cases value <;> first | rfl | rw [heldAs, found]
      have element : Value.ofCell cell = value := by
        cases value <;> cases becomes <;> rfl
      refine ⟨rfl, rfl, ?_, fun row col elsewhere => ?_⟩
      · simp only [Value.matrixElement?, Grid.get?_put inside, if_true, Option.map_some, same, element]
      · simp only [Value.matrixElement?, Grid.get?_put inside, elsewhere, if_false]
  | @complex storage own grid element inside becomes =>
      cases shape
      have stored : Value.complex element = machine.heldAs (.number number) value := by
        cases value <;> cases becomes <;> first | rfl | rw [heldAs, found]
      refine ⟨rfl, rfl, ?_, fun row col elsewhere => ?_⟩
      · simp only [Value.matrixElement?, Grid.get?_put inside, if_true, Option.map_some, stored]
      · simp only [Value.matrixElement?, Grid.get?_put inside, elsewhere, if_false]

/-- An array that was written in is a matrix. -/
theorem IsWritten.exists_shape {place : Nat} {held changed : Value}
    (written : IsWritten place value held changed) : ∃ rows cols, held.shape? = some (rows, cols) := by
  cases written <;> exact ⟨_, _, rfl⟩

namespace Stores

/-- Everything but the stack, the last X and the variables is as it was. -/
theorem rest (stores : machine.Stores value operand after) :
    after =
      { machine with
        bindings := after.bindings
        nextStorage := after.nextStorage
        stack := after.stack
        lastX := after.lastX } := by
  cases stores <;> rfl

theorem level_eq (stores : machine.Stores value operand after) : after.level = machine.level := by
  rw [stores.rest]
  rfl

/-- Other names mean what they meant, at every level. -/
theorem value?_of_ne (stores : machine.Stores value operand after) {name : List UInt8} (level : Int)
    (elsewhere : operand.variableName? ≠ some name) :
    after.bindings.value? name level = machine.bindings.value? name level := by
  cases stores with
  | @register number index held changed found written =>
      refine Variables.value?_setValue_of_ne (fun same => elsewhere ?_) changed
      have named := Variables.name_eq_of_lookup? (recallName_of_registers found).1 same
      rw [Operand.variableName?, named]
  | lastX | level => rfl
  | @«variable» stored bindings ends =>
      have distinct : name ≠ stored := fun same => elsewhere (by rw [Operand.variableName?, same])
      obtain ⟨index, found, rfl⟩ | ⟨-, rfl⟩ := Variables.store_eq_ok ends
      · refine Variables.value?_setValue_of_ne (fun same => distinct ?_) value
        exact Variables.name_eq_of_lookup? found same
      · exact Variables.value?_insertGlobal_of_ne distinct value level

/-- A variable with the name of the one that was stored in, but seen from another call, means what it
meant. -/
theorem value?_of_namesake (stores : machine.Stores value operand after) {name : List UInt8} {depth : Nat}
    {seen : Value} (named : operand.variableName? = some name)
    (elsewhere : machine.bindings.lookup? name depth ≠ machine.bindings.lookup? name machine.level)
    (bound : machine.bindings.value? name depth = some seen) :
    after.bindings.value? name depth = some seen := by
  cases stores with
  | @register number index held changed found written =>
      obtain rfl : registersName = name := Option.some.inj named
      rw [(recallName_of_registers found).1] at elsewhere
      exact (Variables.value?_setValue_of_ne elsewhere changed).trans bound
  | lastX | level => cases named
  | @«variable» stored bindings ends =>
      obtain rfl : stored = name := Option.some.inj named
      obtain ⟨index, found, rfl⟩ | ⟨unbound, rfl⟩ := Variables.store_eq_ok ends
      · rw [found] at elsewhere
        exact (Variables.value?_setValue_of_ne elsewhere value).trans bound
      · exact Variables.value?_insertGlobal_of_unseen unbound bound value

/-- The array of registers after one of them was stored in. -/
theorem exists_rewritten {number : UInt32} (stores : machine.Stores value (.number number) after)
    {index : Nat} {held : Value} {rows cols : Nat} (found : machine.registers = .ok (index, held))
    (shape : held.shape? = some (rows, cols)) :
    ∃ changed, after.registers = .ok (index, changed) ∧
      after.bindings = machine.bindings.setValue index changed ∧
      held.RewritesCell changed (number.toNat / cols) (number.toNat % cols)
        (machine.heldAs (.number number) value) := by
  cases stores with
  | @register number position array changed foundHere written =>
      obtain ⟨rfl, rfl⟩ := Prod.mk.inj (Except.ok.inj (foundHere.symm.trans found))
      exact ⟨changed, registers_setValue found changed (machine.nextStorage + 1), rfl,
        written.rewritesCell found shape⟩

theorem register_other (stores : machine.Stores value operand after)
    (named : operand ≠ .text registersName) {number : UInt32} (distinct : .number number ≠ operand) :
    after.register number.toNat = machine.register number.toNat := by
  rw [register_eq, register_eq]
  by_cases inRegisters : operand.variableName? = some registersName
  · cases operand with
    | number stored =>
        cases stores with
        | @register _ index held changed found written =>
            obtain ⟨rows, cols, shape⟩ := written.exists_shape
            have rewrites := written.rewritesCell found shape
            have registers := registers_setValue found changed (machine.nextStorage + 1)
            have elsewhere : (number.toNat / cols, number.toNat % cols) ≠
                (stored.toNat / cols, stored.toNat % cols) := fun same =>
              distinct (congrArg Operand.number (UInt32.toNat_inj.mp (Grid.place_injective same)))
            rw [(recallName_of_registers found).2, (recallName_of_registers registers).2]
            simp only [rewrites.shape, shape, rewrites.others _ _ elsewhere]
    | stack register => cases inRegisters
    | text name => exact absurd (congrArg Operand.text (Option.some.inj inRegisters)) named
  · rw [recallName, recallName, stores.level_eq, stores.value?_of_ne _ inRegisters]

theorem stackRegister_other (stores : machine.Stores value operand after) {register : StackRegister}
    (distinct : .stack register ≠ operand) : after.stackRegister register = machine.stackRegister register := by
  rw [stackRegister, stackRegister]
  cases stores with
  | register | «variable» => rfl
  | @lastX stored outside =>
      cases stands : register.depth? with
      | none =>
          exact absurd (congrArg Operand.stack (StackRegister.eq_of_depth?
            (stands.trans outside.symm))) distinct
      | some depth => rfl
  | @level stored depth stands inside =>
      cases otherStands : register.depth? with
      | none => rfl
      | some otherDepth =>
          have apart : depth ≠ otherDepth := fun same =>
            distinct (congrArg Operand.stack (StackRegister.eq_of_depth?
              (otherStands.trans (same ▸ stands.symm))))
          simp only [Stack.get?, Stack.set, List.getElem?_set_ne apart]

theorem variableNamed_other (stores : machine.Stores value operand after) {name : List UInt8}
    (distinct : .text name ≠ operand) (other : name ≠ registersName) :
    after.variableNamed name = machine.variableNamed name := by
  have elsewhere : operand.variableName? ≠ some name := by
    intro same
    cases operand with
    | number number => exact other (Option.some.inj same).symm
    | stack register => cases same
    | text stored => exact distinct (congrArg Operand.text (Option.some.inj same).symm)
  rw [variableNamed, variableNamed, recallName, recallName, stores.level_eq, stores.value?_of_ne _ elsewhere]

/-- Other operands are recalled as before. -/
theorem recallOperand_other (stores : machine.Stores value operand after)
    (named : operand ≠ .text registersName) {other : Operand} (distinct : other ≠ operand)
    (otherNamed : other ≠ .text registersName) :
    after.recallOperand other = machine.recallOperand other := by
  cases other with
  | number number => exact stores.register_other named distinct
  | stack register => exact stores.stackRegister_other distinct
  | text name =>
      exact stores.variableNamed_other distinct fun same => otherNamed (congrArg Operand.text same)

theorem recallsOthers (stores : machine.Stores value operand after)
    (named : operand ≠ .text registersName) : machine.RecallsOthers operand after where
  operands _ := stores.recallOperand_other named
  mode := by cases stores <;> rfl
  levels distance elsewhere := by
    cases stores with
    | register | lastX | «variable» => rfl
    | @level register depth stands inside =>
        have apart : depth ≠ distance := fun same => elsewhere register rfl (same ▸ stands)
        simp only [Stack.get?, Stack.set, List.getElem?_set_ne apart]
  names _ level := stores.value?_of_ne level
  namesakes _ _ _ := stores.value?_of_namesake
  rest := stores.rest

end Stores

/-! ## Which registers there are -/

/-- Putting something at the place of a number fails if the grid has no such place, or if it is nothing for the
grid. -/
theorem ends_put {α : Type} (grid : Grid α) (number : Nat) (machine : Machine) {converted : Outcome α}
    (refused : ∀ error, converted = .error error → error = .plain .invalidType)
    {finish : Grid α → Action Unit} (finishes : ∀ changed machine, ((finish changed).on machine).1 = .ok ()) :
    ((do
      if grid.rows * grid.cols ≤ number then fail .sizeError
      let element ← (liftM converted : Action α)
      let changed ← (liftM (grid.set (number / grid.cols) (number % grid.cols) element) : Action (Grid α))
      finish changed : Action Unit).on machine).1 =
      match grid.get? (number / grid.cols) (number % grid.cols) with
      | none => fail .sizeError
      | some _ => if converted.isOk then .ok () else fail .invalidType := by
  by_cases outside : grid.rows * grid.cols ≤ number
  · rw [if_pos outside, Grid.get?_of_outside outside]
    rfl
  · have inside := not_le.mp outside
    rw [if_neg outside, Grid.get?_of_place inside]
    cases converted with
    | error error => exact congrArg Except.error (refused error rfl)
    | ok element =>
        rw [on_bind_ok (on_lift machine _), Grid.exists_set_of_place inside,
          on_bind_ok (on_lift machine _)]
        exact finishes _ machine

theorem refused_of_cellOf (value : Value) (error : Error) (fails : cellOf value = .error error) :
    error = .plain .invalidType := by
  cases value <;> cases fails <;> rfl

theorem refused_of_complexOf (value : Value) (error : Error) (fails : complexOf value = .error error) :
    error = .plain .invalidType := by
  cases value <;> cases fails <;> rfl

/-- Storing in a register fails as recalling it does, and apart from that only for values that its array
cannot hold. -/
theorem storeRegister_eq (machine : Machine) (number : Nat) (value : Value) :
    ((storeRegister number value).on machine).1 =
      match machine.register number with
      | .error error => .error error
      | .ok _ =>
        match machine.recallName registersName with
        | some held => if value.suits held then .ok () else fail .invalidType
        | none => .ok () := by
  rw [register_eq, storeRegister, on_bind_ok (on_get machine)]
  cases found : machine.registers with
  | error error =>
      rw [registers] at found
      rw [recallName, Variables.value?]
      split at found
      · cases found
      · next unbound =>
          rw [unbound, ← found]
          rfl
  | ok position =>
      obtain ⟨index, held⟩ := position
      rw [(recallName_of_registers found).2, on_bind_ok (on_lift machine _)]
      cases held with
      | realMatrix storage grid =>
          refine (ends_put grid number machine (refused_of_cellOf value) fun _ _ => rfl).trans ?_
          dsimp only [Value.shape?, Value.matrixElement?, Value.suits]
          cases grid.get? (number / grid.cols) (number % grid.cols) <;> rfl
      | complexMatrix storage grid =>
          refine (ends_put grid number machine (refused_of_complexOf value) fun _ _ => rfl).trans ?_
          dsimp only [Value.shape?, Value.matrixElement?, Value.suits]
          cases grid.get? (number / grid.cols) (number % grid.cols) <;> rfl
      | _ => rfl

/-- The registers are the cells of a matrix of any shape, found by their numbers row by row. -/
structure HasCells (machine : Machine) (index : Nat) (held : Value) (cols : Nat) : Prop where
  positive : 0 < cols
  distinct : ∀ first second : UInt32, first ≠ second →
    (first.toNat / cols, first.toNat % cols) ≠ (second.toNat / cols, second.toNat % cols)
  recalled : ∀ number : UInt32, machine.valueAt (.direct (.number number)) =
    match held.matrixElement? (number.toNat / cols) (number.toNat % cols) with
    | none => fail .sizeError
    | some element => .ok element
  stored : ∀ (number : UInt32) value after,
    (store (.direct (.number number)) value).on machine = (.ok (), after) →
      ∃ changed, after.registers = .ok (index, changed) ∧
        after.bindings = machine.bindings.setValue index changed ∧
        held.RewritesCell changed (number.toNat / cols) (number.toNat % cols)
          (machine.heldAs (.number number) value)

theorem stores_of_store (ends : (store (.direct operand) value).on machine = (.ok (), after)) :
    machine.Stores value operand after := by
  obtain ⟨found, resolved, stores⟩ := exists_stores ends
  cases resolved
  exact stores

theorem hasCells {index : Nat} {held : Value} {rows cols : Nat}
    (found : machine.registers = .ok (index, held)) (shape : held.shape? = some (rows, cols)) :
    machine.HasCells index held cols where
  positive := Value.cols_pos_of_shape? shape
  distinct first second apart same := apart (UInt32.toNat_inj.mp (Grid.place_injective same))
  recalled number := by
    show machine.register number.toNat = _
    rw [register_eq, (recallName_of_registers found).2]
    simp only [shape]
  stored number value after ends := (stores_of_store ends).exists_rewritten found shape

/-- What is stored is recalled, and everything else is recalled as before; a store that fails changes nothing.
A register is stored in the cell from which it is recalled, different ones in different cells, and with a
value that the array can hold it fails to be stored in exactly where it fails to be recalled. -/
theorem store_recall (machine : Machine) :
    (∀ operand value after, operand ≠ .text registersName →
      (store (.direct operand) value).on machine = (.ok (), after) →
        after.valueAt (.direct operand) = .ok (machine.heldAs operand value) ∧
          machine.RecallsOthers operand after) ∧
    (∀ operand value error after,
      (store (.direct operand) value).on machine = (.error error, after) → after = machine) ∧
    (∀ index held rows cols, machine.registers = .ok (index, held) →
      held.shape? = some (rows, cols) → machine.HasCells index held cols) ∧
    ∀ (number : UInt32) value, ((store (.direct (.number number)) value).on machine).1 =
      match machine.valueAt (.direct (.number number)) with
      | .error error => .error error
      | .ok _ =>
        match machine.recallName registersName with
        | some held => if value.suits held then .ok () else fail .invalidType
        | none => .ok () := by
  refine ⟨fun operand value after named ends => ?_, fun operand value error after fails => ?_,
    fun index held rows cols => hasCells, fun number value => ?_⟩
  · have stores := stores_of_store ends
    exact ⟨stores.recallOperand, stores.recallsOthers named⟩
  · exact (failsCleanly_store _ value fails).1
  · exact storeRegister_eq machine number.toNat value

/-- A new machine has twenty-five registers. -/
theorem store_recall_initial :
    Operand.number 3 ≠ .text registersName ∧
    (∃ after, (store (.direct (.number 3)) (.real 5)).on (initial default) = (.ok (), after) ∧
      after.valueAt (.direct (.number 3)) = .ok (.real 5) ∧
      (initial default).RecallsOthers (.number 3) after) ∧
    (store (.direct (.number 25)) (.real 5)).on (initial default) =
      (fail .sizeError, initial default) ∧
    ∃ index held, (initial default).registers = .ok (index, held) ∧ held.shape? = some (25, 1) ∧
      (initial default).HasCells index held 1 := by
  obtain ⟨stores, fails, cells, -⟩ := store_recall (initial default)
  refine ⟨by simp, ?_, ?_, ?_⟩
  · have ends : ((store (.direct (.number 3)) (.real 5)).on (initial default)).1 = .ok () := by rfl
    have stored := stores (.number 3) (.real 5) _ (by simp) (Prod.ext ends rfl)
    exact ⟨_, Prod.ext ends rfl, stored⟩
  · have ends : ((store (.direct (.number 25)) (.real 5)).on (initial default)).1 =
        fail .sizeError := by rfl
    exact Prod.ext ends (fails _ _ _ _ (Prod.ext ends rfl))
  · exact ⟨_, _, rfl, rfl, cells _ _ _ _ rfl rfl⟩

end Machine

end Keystroke
