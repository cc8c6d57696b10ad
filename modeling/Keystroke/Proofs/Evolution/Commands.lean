import Mathlib
import Keystroke.Machine.Command
import Keystroke.Proofs.Evolution.Actions

/-!
# What ordinary commands leave

Commands on values, on the stack, the memory, the matrix editor, the display and the printer: each makes its own
few changes, and none of them moves the course.
-/

namespace Keystroke

open Keystroke.Action

namespace Machine

variable {moves : Bool} {start machine : Machine}

/-! ## Parts of commands -/

namespace Evolves

variable (evolved : start.Evolves moves machine)

include evolved

theorem checkEditor : start.Evolves moves machine.checkEditor := by
  obtain ⟨editor, same, -⟩ := machine.exists_checkEditor
  rw [same]
  exact { evolved with }

theorem pushLifting (value : Value) : start.Evolves moves (machine.pushLifting value) := by
  rw [Machine.pushLifting]
  refine { evolved with isFitted := fun fitted => ?_ }
  split
  · exact (evolved.isFitted fitted).setX value
  · exact (evolved.isFitted fitted).push value

theorem tellLines (lines : List String) : start.Evolves moves (machine.tellLines lines) := by
  induction lines generalizing machine with
  | nil => exact evolved
  | cons line lines ih =>
      have told : start.Evolves moves (machine.tell (.printed (Text.toBytes line))) := { evolved with }
      exact ih told

/-- A note on what the present call keeps is made with a local variable that keeps it. -/
theorem keepLocal {name : List UInt8} {value : Value} {depth : Nat} {hides : Bool} {source : Machine}
    {bindings : Variables} (found : start.Evolves moves source)
    (kept : name = packageName ∨ name = parkedEditorName)
    (stores : source.bindings.storeLocal name value depth keptMarks = .ok (hides, bindings))
    {change : Frame → Frame} (keeps : ∀ frame, (change frame).bare = frame.bare) :
    start.Evolves moves { machine with bindings, returns := machine.returns.modifyTop change } where
  isCalm := evolved.isCalm
  hasMadeTable made := .storeLocal (found.hasMadeTable made) (.inr ⟨rfl, kept⟩) stores
  isFitted := evolved.isFitted
  course stays := by
    refine Eq.trans ?_ (evolved.course stays)
    simp only [Machine.course, Returns.bare_modifyTop _ keeps]

end Evolves

/-! ## Values and operands -/

theorem evolves_adopt (value : Value) : (adopt value).Evolves moves start :=
  evolves_get fun _ evolved => evolves_set_then evolves_pure { evolved with }

theorem evolves_newStorage (count : Nat) : (newStorage count).Evolves moves start :=
  evolves_get fun _ evolved => evolves_set_then evolves_pure { evolved with }

theorem evolves_setVariable (index : Nat) (value : Value) : (setVariable index value).Evolves moves start :=
  evolves_modify fun _ evolved =>
    { evolved with hasMadeTable := fun made => .setValue (evolved.hasMadeTable made) index value }

theorem evolves_storeRegister (number : Nat) (value : Value) :
    (storeRegister number value).Evolves moves start := by
  refine evolves_get fun machine evolved => evolves_found fun found _ => ?_
  obtain ⟨index, registers⟩ := found
  dsimp only
  split
  · refine evolves_ite (evolves_found fun _ _ => ?_) ?_
    all_goals
      refine evolves_found fun cell _ => evolves_found fun changed _ => ?_
      exact (evolves_newStorage 1).bind fun storage => evolves_setVariable index _
  · refine evolves_ite (evolves_found fun _ _ => ?_) ?_
    all_goals
      refine evolves_found fun element _ => evolves_found fun changed _ => ?_
      exact (evolves_newStorage 1).bind fun storage => evolves_setVariable index _
  · exact evolves_lift

theorem evolves_storeStackRegister (register : StackRegister) (value : Value) :
    (storeStackRegister register value).Evolves moves start := by
  refine evolves_get fun machine evolved => ?_
  split
  · exact evolves_set { evolved with }
  · refine evolves_ite (evolves_found fun _ _ => ?_) ?_
    all_goals
      exact evolves_set { evolved with isFitted := fun fitted => (evolved.isFitted fitted).set _ value }

theorem evolves_storeName (name : List UInt8) (value : Value) : (storeName name value).Evolves moves start :=
  evolves_get fun _ evolved => evolves_found fun _ stores => evolves_set
    { evolved with hasMadeTable := fun made => .store (evolved.hasMadeTable made) stores }

theorem evolves_store (argument : Argument) (value : Value) : (store argument value).Evolves moves start := by
  refine evolves_get fun machine evolved => evolves_found fun place _ => ?_
  split
  · exact evolves_storeRegister _ value
  · exact evolves_storeStackRegister _ value
  · exact evolves_storeName _ value
  · exact evolves_lift

theorem evolves_setX (value : Value) : (setX value).Evolves moves start :=
  evolves_modify fun _ evolved =>
    { evolved with isFitted := fun fitted => (evolved.isFitted fitted).setX value }

theorem evolves_push (value : Value) : (push value).Evolves moves start :=
  evolves_modify fun _ evolved =>
    { evolved with isFitted := fun fitted => (evolved.isFitted fitted).push value }

theorem evolves_pushLift (value : Value) : (pushLift value).Evolves moves start :=
  evolves_modify fun _ evolved => evolved.pushLifting value

theorem evolves_replaceX (x result : Value) : (replaceX x result).Evolves moves start :=
  (evolves_adopt result).bind fun _ => evolves_modify fun _ evolved =>
    { evolved with isFitted := fun fitted => (evolved.isFitted fitted).setX _ }

theorem evolves_applyToX (f : Value → Outcome Value) : (applyToX f).Evolves moves start :=
  evolves_get fun _ _ => evolves_found fun x _ => evolves_found fun _ _ => evolves_replaceX x _

theorem evolves_applyToYX (f : Value → Value → Outcome Value) : (applyToYX f).Evolves moves start := by
  refine evolves_get fun machine evolved => evolves_found fun _ _ => evolves_found fun x _ => ?_
  refine evolves_found fun y _ => evolves_found fun result _ => (evolves_adopt result).bind fun result => ?_
  exact evolves_found fun stack replaced => evolves_modify fun _ left =>
    { left with isFitted := fun fitted => (evolved.isFitted fitted).replaceTop replaced }

theorem evolves_applyKeepingY (f : Binary64 → Binary64 → Outcome Binary64) :
    (applyKeepingY f).Evolves moves start := by
  refine evolves_get fun machine evolved => evolves_found fun _ _ => evolves_found fun x _ => ?_
  exact evolves_found fun y _ => evolves_found fun result _ => evolves_replaceX x result

theorem evolves_applyToStored (f : Value → Value → Outcome Value) (argument : Argument) :
    (applyToStored f argument).Evolves moves start := by
  refine evolves_get fun machine evolved => evolves_found fun stored _ => evolves_found fun x _ => ?_
  refine evolves_found fun result _ => (evolves_adopt result).bind fun result => ?_
  exact evolves_store argument result

theorem evolves_applyToRecalled (f : Value → Value → Outcome Value) (argument : Argument) :
    (applyToRecalled f argument).Evolves moves start := by
  refine evolves_get fun machine evolved => evolves_found fun recalled _ => ?_
  exact evolves_found fun x _ => evolves_found fun result _ => evolves_replaceX x result

/-! ## Numbers and conditions -/

theorem evolves_numericCommand {memory : Nat} {flags : Flags} {opcode : Opcode} {argument : Argument}
    {action : Action Unit} (found : numericCommand? memory flags opcode argument = some action) :
    action.Evolves moves start := by
  rw [numericCommand?] at found
  split at found
  · cases found
    exact evolves_applyToX _
  split at found
  · cases found
    exact evolves_applyToYX _
  split at found
  · cases found
    exact evolves_applyKeepingY _
  split at found
  · cases found
    exact evolves_applyToStored _ argument
  · obtain ⟨f, -, rfl⟩ := Option.map_eq_some_iff.mp found
    exact evolves_applyToRecalled f argument

theorem evolves_joinOrSplit : joinOrSplit.Evolves moves start := by
  refine evolves_get fun machine evolved => evolves_found fun x _ => ?_
  split
  · refine evolves_modify_then ?_ fun _ evolved => { evolved with }
    exact (evolves_setX _).bind fun _ => evolves_push _
  · refine evolves_found fun _ _ => evolves_found fun y _ => evolves_found fun y _ => ?_
    refine evolves_modify_then (evolves_found fun z _ => ?_) fun _ evolved => { evolved with }
    exact evolves_found fun stack replaced => evolves_modify fun _ left =>
      { left with isFitted := fun fitted => (evolved.isFitted fitted).replaceTop replaced }
  · exact evolves_lift
  · exact evolves_lift

theorem evolves_askFlag (wanted clears : Bool) (argument : Argument) :
    (askFlag wanted clears argument).Evolves moves start := by
  refine evolves_get fun machine evolved => evolves_found fun flag _ => ?_
  refine evolves_ite (evolves_found fun _ _ => ?_) ?_
  all_goals
    refine evolves_ite ?_ evolves_lift
    exact evolves_found fun flags _ => evolves_set_then evolves_lift { evolved with }

theorem evolves_condition {opcode : Opcode} {argument : Argument} {action : Action Unit}
    (found : condition? opcode argument = some action) : action.Evolves moves start := by
  rw [condition?] at found
  split at found
  · cases found
    exact evolves_get fun _ _ => evolves_found fun _ _ => evolves_lift
  split at found
  · cases found
    refine evolves_get fun _ _ => evolves_found fun _ _ => ?_
    exact evolves_found fun _ _ => evolves_found fun _ _ => evolves_lift
  split at found
  · cases found
    exact evolves_get fun _ _ => evolves_found fun _ _ => evolves_lift
  · obtain ⟨wanted, -, rfl⟩ := Option.map_eq_some_iff.mp found
    exact evolves_askFlag wanted.1 wanted.2 argument

theorem evolves_countLoop (up : Bool) (argument : Argument) : (countLoop up argument).Evolves moves start := by
  refine evolves_get fun _ _ => evolves_found fun _ _ => evolves_found fun _ _ => ?_
  exact (evolves_store argument _).bind fun _ => evolves_lift

/-! ## The stack and the modes -/

theorem evolves_changeStack {change : Stack → Stack}
    (keeps : ∀ stack : Stack, stack.IsFitted → (change stack).IsFitted) :
    (changeStack change).Evolves moves start :=
  evolves_modify fun _ evolved => { evolved with isFitted := fun fitted => keeps _ (evolved.isFitted fitted) }

theorem evolves_tryStack {change : Stack → Outcome Stack}
    (keeps : ∀ stack : Stack, stack.IsFitted → ∀ rest, change stack = .ok rest → rest.IsFitted) :
    (tryStack change).Evolves moves start :=
  evolves_get fun _ evolved => evolves_found fun rest changed => evolves_set
    { evolved with isFitted := fun fitted => keeps _ (evolved.isFitted fitted) rest changed }

theorem evolves_stackCommand {opcode : Opcode} {action : Action Unit}
    (found : stackCommand? opcode = some action) : action.Evolves moves start := by
  unfold stackCommand? at found
  split at found <;> cases found
  case h_1 => exact evolves_setX .zero
  case h_2 | h_3 => exact evolves_get fun _ _ => evolves_found fun _ _ => evolves_push _
  case h_4 => exact evolves_tryStack fun _ fitted _ swapped => fitted.swap swapped
  case h_5 => exact evolves_changeStack fun _ fitted => fitted.rollDown
  case h_6 => exact evolves_changeStack fun _ fitted => fitted.rollUp
  case h_7 =>
    refine evolves_tryStack fun stack fitted rest dropped => ?_
    cases popped : stack.pop with
    | error error => simp [popped, Except.map] at dropped
    | ok result =>
        simp only [popped, Except.map, Except.ok.injEq] at dropped
        subst dropped
        exact fitted.pop popped
  case h_8 => exact evolves_changeStack fun stack _ => stack.isFitted_clear
  case h_9 => exact evolves_get fun _ _ => evolves_pushLift _
  case h_10 => exact evolves_changeStack fun stack _ => stack.isFitted_setBig false
  case h_11 => exact evolves_changeStack fun stack _ => stack.isFitted_setBig true
  case h_12 => exact evolves_pushLift _
  case h_13 => exact evolves_joinOrSplit

theorem evolves_changeFlags (change : Flags → Flags) : (changeFlags change).Evolves moves start :=
  evolves_modify fun _ evolved => { evolved with }

theorem evolves_setUserFlag (value : Bool) (argument : Argument) : (setUserFlag value argument).Evolves moves start :=
  evolves_get fun _ evolved => evolves_found fun _ _ => evolves_found fun _ _ => evolves_set { evolved with }

theorem evolves_setDisplayMode (mode : Nat → DisplayMode) (argument : Argument) :
    (setDisplayMode mode argument).Evolves moves start := by
  refine evolves_get fun _ _ => evolves_found fun _ _ => ?_
  exact evolves_ite (evolves_found fun _ _ => evolves_changeFlags _) (evolves_changeFlags _)

theorem evolves_modeCommand {opcode : Opcode} {argument : Argument} {action : Action Unit}
    (found : modeCommand? opcode argument = some action) : action.Evolves moves start := by
  unfold modeCommand? at found
  split at found <;> cases found
  case h_1 | h_2 => exact evolves_setUserFlag _ argument
  case h_8 | h_9 | h_10 => exact evolves_setDisplayMode _ argument
  all_goals exact evolves_changeFlags _

/-! ## Memory -/

theorem evolves_storeAlpha (argument : Argument) : (storeAlpha argument).Evolves moves start :=
  evolves_get fun _ _ => evolves_found fun _ _ => evolves_store argument _

theorem evolves_recallAlpha (argument : Argument) : (recallAlpha argument).Evolves moves start := by
  refine evolves_get fun machine evolved => evolves_found fun value _ => ?_
  split
  · exact evolves_set { evolved with }
  · exact evolves_set { evolved with }

theorem evolves_exchangeX (argument : Argument) : (exchangeX argument).Evolves moves start := by
  refine evolves_get fun machine evolved => evolves_found fun recalled _ => evolves_found fun x _ => ?_
  exact (evolves_store argument x).bind fun _ => evolves_setX recalled

/-- The variable that is removed may be that of the editor. -/
theorem Evolves.purge (evolved : start.Evolves moves machine) {name : List UInt8} {level : Int}
    {entry : Variable} {bindings : Variables} (purges : machine.bindings.purge name level = some (entry, bindings)) :
    start.Evolves moves ({ machine with bindings } : Machine).checkEditor := by
  have purged : start.Evolves moves { machine with bindings } :=
    { evolved with hasMadeTable := fun made => .purge (evolved.hasMadeTable made) purges }
  exact purged.checkEditor

theorem evolves_clearVariable (name : List UInt8) : (clearVariable name).Evolves moves start := by
  refine evolves_modify fun machine evolved => ?_
  split
  · next purges => exact evolved.purge purges
  · exact evolved

theorem evolves_replaceVariable (index : Nat) (value : Value) :
    (replaceVariable index value).Evolves moves start :=
  (evolves_adopt value).bind fun _ => evolves_setVariable index _

theorem evolves_clearRegisters : clearRegisters.Evolves moves start := by
  refine evolves_get fun machine evolved => evolves_found fun found _ => ?_
  split
  · exact evolves_replaceVariable _ _
  · exact evolves_replaceVariable _ _
  · exact evolves_lift

theorem evolves_resizeVariable (index rows cols : Nat) :
    (resizeVariable index rows cols).Evolves moves start := by
  refine evolves_get fun machine evolved => ?_
  split
  · refine (evolves_newStorage 1).bind fun storage => (evolves_setVariable index _).bind fun _ => ?_
    exact evolves_found fun changed _ => evolves_setVariable index _
  · exact evolves_lift

theorem evolves_resizeRegisters (count : Nat) : (resizeRegisters count).Evolves moves start := by
  refine evolves_get fun machine evolved => evolves_ite ?_ ?_
  · split
    · next purges => exact evolves_set (evolved.purge purges)
    · exact evolves_set evolved.checkEditor
  · split
    · exact evolves_resizeVariable _ count 1
    · refine evolves_found fun matrix _ => (evolves_adopt matrix).bind fun matrix => ?_
      exact evolves_get fun _ evolved => evolves_found fun _ stores => evolves_set
        { evolved with hasMadeTable := fun made => .store (evolved.hasMadeTable made) stores }

theorem evolves_dimension (name : List UInt8) : (dimension name).Evolves moves start := by
  refine evolves_get fun machine evolved => evolves_found fun wanted _ => ?_
  obtain ⟨rows, cols⟩ := wanted
  dsimp only
  split
  · exact evolves_resizeVariable _ rows cols
  · exact evolves_found fun matrix _ => (evolves_adopt matrix).bind fun _ => evolves_storeName name _

theorem evolves_newMatrix : newMatrix.Evolves moves start := by
  refine evolves_get fun machine evolved => evolves_found fun wanted _ => ?_
  refine evolves_found fun matrix _ => (evolves_adopt matrix).bind fun matrix => ?_
  exact evolves_found fun stack replaced => evolves_modify fun _ left =>
    { left with isFitted := fun fitted => (evolved.isFitted fitted).replaceTop replaced }

theorem evolves_newList : newList.Evolves moves start :=
  (evolves_adopt _).bind fun _ => evolves_pushLift _

/-! ## The matrix editor -/

theorem evolves_setEditor (editor : Editor) : (setEditor editor).Evolves moves start :=
  evolves_modify fun _ evolved => { evolved with }

theorem evolves_beginEditing (name : List UInt8) (isEditing : Bool) :
    (beginEditing name isEditing).Evolves moves start := by
  refine evolves_get fun machine evolved => ?_
  split
  · exact evolves_lift
  · refine evolves_found fun _ _ => (evolves_setEditor _).bind fun _ => evolves_ite ?_ evolves_pure
    split
    · exact evolves_pushLift _
    · exact evolves_pure

theorem evolves_storeCursor : storeCursor.Evolves moves start := by
  refine evolves_get fun machine evolved => evolves_found fun _ _ => evolves_found fun x _ => ?_
  refine evolves_found fun col _ => evolves_found fun y _ => evolves_found fun row _ => ?_
  refine evolves_found fun target _ => evolves_found fun dimensions _ => ?_
  refine evolves_ite (evolves_found fun _ _ => ?_) ?_
  all_goals
    refine evolves_found fun editor _ => evolves_found fun i _ => evolves_found fun j _ => ?_
    exact evolves_setEditor _

theorem evolves_recallCursor : recallCursor.Evolves moves start := by
  refine evolves_get fun _ _ => evolves_found fun editor _ => evolves_found fun row _ => ?_
  exact (evolves_pushLift _).bind fun _ => evolves_found fun col _ => evolves_push _

theorem evolves_storeElement : storeElement.Evolves moves start := by
  refine evolves_get fun machine evolved => evolves_found fun x _ => evolves_found fun editor _ => ?_
  split
  · exact evolves_lift
  split
  · exact evolves_lift
  · exact (evolves_newStorage _).bind fun _ => (evolves_setVariable _ _).bind fun _ => evolves_lift

theorem evolves_recallElement : recallElement.Evolves moves start := by
  refine evolves_get fun machine evolved => evolves_found fun editor _ => ?_
  exact evolves_found fun target _ => evolves_found fun element _ => evolves_pushLift element

theorem evolves_moveCursor (move : Editor → Nat → Nat → Editor) : (moveCursor move).Evolves moves start := by
  refine evolves_get fun machine evolved => evolves_found fun target _ => ?_
  exact evolves_found fun dimensions _ => evolves_found fun editor _ => evolves_setEditor _

theorem evolves_leaveLeft : leaveLeft.Evolves moves start := by
  refine evolves_get fun machine evolved => evolves_found fun editor _ => ?_
  split
  · exact evolves_setEditor _
  · exact evolves_moveCursor _

theorem evolves_enterRight : enterRight.Evolves moves start := by
  refine evolves_get fun machine evolved => evolves_found fun editor _ => evolves_found fun target _ => ?_
  split
  · split
    · exact evolves_setEditor _
    · exact evolves_lift
  · exact evolves_moveCursor _

theorem evolves_parkEditor : parkEditor.Evolves moves start := by
  refine evolves_get fun machine evolved => ?_
  split
  · exact evolves_pure
  · refine evolves_set_then (evolves_ite evolves_pure ?_) { evolved with }
    refine evolves_found fun package _ => (evolves_adopt package).bind fun package => ?_
    refine evolves_found fun stored stores => evolves_modify fun _ left => ?_
    exact left.keepLocal evolved (.inr rfl) stores fun _ => rfl

theorem evolves_storeLocal (name : List UInt8) (value : Value) : (storeLocal name value).Evolves moves start := by
  refine evolves_get fun machine evolved => evolves_found fun stored stores => ?_
  obtain ⟨hides, bindings⟩ := stored
  have kept : start.Evolves moves { machine with bindings } :=
    { evolved with hasMadeTable := fun made => .storeLocal (evolved.hasMadeTable made) (.inl rfl) stores }
  exact evolves_set_then (evolves_ite evolves_parkEditor evolves_pure) kept

theorem evolves_restoreEditor (level : Int) : (restoreEditor level).Evolves moves start := by
  refine evolves_get fun machine evolved => ?_
  split
  · exact evolves_pure
  · exact evolves_found fun editor _ => evolves_setEditor editor

theorem evolves_withName {argument : Argument} {action : List UInt8 → Action Unit}
    (keeps : ∀ name, (action name).Evolves moves start) : (withName argument action).Evolves moves start :=
  evolves_get fun _ _ => evolves_found fun name _ => keeps name

theorem evolves_withNumber {argument : Argument} {action : Nat → Action Unit}
    (keeps : ∀ number, (action number).Evolves moves start) : (withNumber argument action).Evolves moves start :=
  evolves_get fun _ _ => evolves_found fun number _ => keeps number

theorem evolves_withLabel {argument : Argument} {action : List UInt8 → Action Unit}
    (keeps : ∀ name, (action name).Evolves moves start) : (withLabel argument action).Evolves moves start :=
  evolves_get fun _ _ => evolves_found fun name _ => keeps name

theorem evolves_memoryCommand {opcode : Opcode} {argument : Argument} {action : Action Unit}
    (found : memoryCommand? opcode argument = some action) : action.Evolves moves start := by
  cases opcode <;> cases found
  case store => exact evolves_get fun _ _ => evolves_found fun x _ => evolves_store argument x
  case storeLocal =>
    refine evolves_withName fun name => evolves_get fun _ _ => ?_
    exact evolves_found fun x _ => evolves_storeLocal name x
  case exchangeX => exact evolves_exchangeX argument
  case alphaStore => exact evolves_storeAlpha argument
  case alphaRecall => exact evolves_recallAlpha argument
  case clearAlpha => exact evolves_modify fun _ evolved => { evolved with }
  case alphaLength => exact evolves_get fun _ _ => evolves_pushLift _
  case clearVariable => exact evolves_withName evolves_clearVariable
  case clearRegisters => exact evolves_clearRegisters
  case size => exact evolves_withNumber evolves_resizeRegisters
  case newMatrix => exact evolves_newMatrix
  case newList => exact evolves_newList
  case dimension => exact evolves_withName evolves_dimension
  -- What is left is the recall of a value.
  exact evolves_get fun _ _ => evolves_found fun value _ => evolves_pushLift value

theorem evolves_editingCommand {opcode : Opcode} {argument : Argument} {action : Action Unit}
    (found : editingCommand? opcode argument = some action) : action.Evolves moves start := by
  cases opcode <;> cases found
  case indexMatrix | editNamed => exact evolves_withName fun name => evolves_beginEditing name _
  case storeCursor => exact evolves_storeCursor
  case recallCursor => exact evolves_recallCursor
  case storeElement => exact evolves_storeElement
  case recallElement => exact evolves_recallElement
  case cursorLeft => exact evolves_leaveLeft
  case cursorRight => exact evolves_enterRight
  case exitAll => exact evolves_modify fun _ evolved => { evolved with }
  all_goals exact evolves_moveCursor _

/-! ## Messages, questions, the display and the printer -/

theorem evolves_showMessage (text : String) : (showMessage text).Evolves moves start :=
  evolves_modify fun _ evolved => { evolved with }

theorem evolves_view (argument : Argument) : (view argument).Evolves moves start := by
  refine evolves_get fun machine evolved => evolves_found fun value _ => ?_
  exact evolves_found fun label _ => evolves_showMessage _

theorem evolves_viewAlpha : viewAlpha.Evolves moves start := evolves_get fun _ _ => evolves_showMessage _

theorem evolves_ask (argument : Argument) : (ask argument).Evolves moves start := by
  refine evolves_get fun machine evolved => evolves_found fun label _ => evolves_found fun value _ => ?_
  exact (evolves_pushLift value).bind fun _ => evolves_modify_then evolves_lift fun _ evolved => { evolved with }

theorem evolves_getKey : getKey.Evolves moves start := by
  refine evolves_get fun machine evolved => ?_
  split
  · exact evolves_set_then (evolves_pushLift _) { evolved with }
  · exact evolves_set_then evolves_lift { evolved with }

theorem evolves_lightPixel : lightPixel.Evolves moves start := by
  refine evolves_get fun machine evolved => evolves_found fun _ _ => evolves_found fun x _ => ?_
  refine evolves_found fun col _ => evolves_found fun y _ => evolves_found fun row _ => ?_
  refine evolves_ite (evolves_found fun _ _ => ?_) ?_
  all_goals
    refine evolves_found fun i _ => evolves_found fun j _ => evolves_found fun display _ => ?_
    exact evolves_set { evolved with }

theorem evolves_printLines (lines : Machine → Outcome (List String)) : (printLines lines).Evolves moves start := by
  refine evolves_get fun machine evolved => evolves_found fun ready _ => evolves_ite ?_ evolves_pure
  exact evolves_found fun lines _ => evolves_set (evolved.tellLines lines)

theorem evolves_printAlpha : printAlpha.Evolves moves start :=
  evolves_get fun _ evolved => evolves_found fun _ _ => evolves_ite (evolves_set { evolved with }) evolves_pure

theorem evolves_printCatalogFrom (place : Nat) : (printCatalogFrom place).Evolves moves start := by
  refine evolves_get fun machine evolved => evolves_found fun ready _ => evolves_ite ?_ evolves_pure
  split
  · exact evolves_pure
  · exact evolves_set { evolved.tellLines _ with }

theorem evolves_outputCommand {opcode : Opcode} {argument : Argument} {action : Action Unit}
    (found : outputCommand? opcode argument = some action) : action.Evolves moves start := by
  cases opcode <;> cases found
  case view => exact evolves_view argument
  case viewAlpha => exact evolves_viewAlpha
  case prompt => exact evolves_viewAlpha.bind fun _ => evolves_lift
  case input => exact evolves_ask argument
  case getKey => exact evolves_getKey
  case clearDisplay => exact evolves_modify fun _ evolved => { evolved with }
  case pixel => exact evolves_lightPixel
  case printVariable => exact evolves_withName fun name => evolves_printLines _
  case printAlpha => exact evolves_printAlpha
  case printUser => exact evolves_printCatalogFrom 0
  all_goals exact evolves_printLines _

end Machine

end Keystroke
