import Mathlib
import Keystroke.Machine.Command
import Keystroke.Proofs.Calls.Memory

/-!
# Commands between calls

A command that does not call, return, or shadow what is edited stays in the given calls, unless its
argument stands for a reserved name.
-/

namespace Keystroke

open Outcome Keystroke.Action
open Variable (globalLevel)

/-- The commands whose argument names a variable. -/
def Opcode.namesVariable : Opcode → Bool
  | .store | .recall | .storeLocal | .exchangeX | .alphaStore | .alphaRecall | .clearVariable
  | .storeAdd | .storeSubtract | .storeMultiply | .storeDivide
  | .recallAdd | .recallSubtract | .recallMultiply | .recallDivide
  | .dimension | .indexMatrix | .editNamed | .incrementSkipGreater | .decrementSkipEqual
  | .solve | .integrate | .view | .input | .printVariable => true
  | _ => false

/-- An instruction spares what calls keep if it names no variable in which calls keep something. -/
def Instruction.Spares (instruction : Instruction) (machine : Machine) : Prop :=
  instruction.opcode.namesVariable = true → machine.Spares instruction.argument

namespace Machine

variable {calls : Calls} {floor : Nat} {machine : Machine}

/-! ## Numbers -/

theorem leads_numericCommand (settled : machine.IsSettled calls floor) {flags : Flags}
    {opcode : Opcode} {argument : Argument}
    (spares : opcode.namesVariable = true → machine.Avoids calls.names argument) {action : Action Unit}
    (found : numericCommand? machine.memory flags opcode argument = some action) :
    action.Leads machine (IsSettled calls floor) fun _ _ => True := by
  rw [numericCommand?] at found
  split at found
  · next f function =>
      cases found
      exact stays_applyToX (fun _ _ fits => ends_functionOfX settled.memory function fits) machine settled
  split at found
  · next f operation =>
      cases found
      exact stays_applyToYX (fun _ _ _ fitsY fitsX => ends_operationOnYX settled.memory operation fitsY fitsX)
        machine settled
  split at found
  · next f percentage =>
      cases found
      exact stays_applyKeepingY (ordinary_percentage percentage) machine settled
  split at found
  · next f operation =>
      cases found
      have names : opcode.namesVariable = true := by
        revert operation
        cases opcode <;> simp [storeOperation?, Opcode.namesVariable]
      exact leads_applyToStored settled (spares names)
        fun _ _ _ fitsY fitsX => ends_storeOperation settled.memory operation fitsY fitsX
  · obtain ⟨f, operation, rfl⟩ := Option.map_eq_some_iff.mp found
    have names : opcode.namesVariable = true := by
      revert operation
      cases opcode <;> simp [recallOperation?, Opcode.namesVariable]
    exact leads_applyToRecalled settled (spares names)
      fun _ _ _ fitsY fitsX => ends_recallOperation settled.memory operation fitsY fitsX

theorem stays_joinOrSplit : joinOrSplit.Stays calls floor fun _ _ => True := by
  refine stays_get fun machine settled => ?_
  refine stays_lift (ends_x settled) fun x _ => ?_
  split
  · refine stays_modify_then ?_ fun machine settled => { settled with lastX := Value.fits_complex _ }
    refine (stays_setX (Value.fits_real _)).bind fun _ _ _ _ => ?_
    exact stays_push (Value.fits_real _)
  · refine stays_lift (Stack.ordinary_require _ _) fun _ _ => ?_
    refine stays_lift (ends_y settled) fun y _ => stays_lift y.ordinary_asReal fun y _ => ?_
    refine stays_modify_then ?_ fun machine settled => { settled with lastX := Value.fits_real _ }
    refine stays_lift (ComplexNumber.ordinary_checked _) fun z _ => ?_
    refine stays_lift (settled.stack.replaceTop (Value.fits_complex z) 2)
      fun stack fitsStack => ?_
    exact stays_modify fun machine settled =>
      { settled with stack := fitsStack.later settled.floor }
  · exact stays_fail rfl
  · exact stays_fail rfl

/-! ## Conditions -/

theorem ordinary_answer (condition : Bool) : IsOrdinary (answer condition) := by
  cases condition <;> exact ends_fail rfl

theorem ordinary_compare (left right : Value) : IsOrdinary (left.compare right) := by
  refine left.ordinary_asReal.bind fun x _ => right.ordinary_asReal.bind fun y _ => ?_
  refine ends_ite (fun _ => trivial) fun _ => ends_ite (fun _ => trivial) fun _ => ?_
  exact ends_ite (fun _ => trivial) fun _ => ends_fail rfl

theorem ordinary_compareWithZero (relation : Relation) (x : Value) :
    IsOrdinary (compareWithZero relation x) := by
  refine ends_ite (fun _ => ?_) fun _ => ?_
  · exact (ordinary_compare x _).bind fun _ _ => ordinary_answer _
  · split
    · exact ordinary_answer _
    · exact ordinary_answer _
    · exact x.ordinary_asReal.bind fun _ _ => ends_fail rfl

theorem ordinary_compareWithY (relation : Relation) (y x : Value) :
    IsOrdinary (compareWithY relation y x) := by
  unfold compareWithY
  split
  · exact ordinary_answer _
  · exact ordinary_answer _
  · exact (ordinary_compare x y).bind fun _ _ => ordinary_answer _

theorem ordinary_setUser (flags : Flags) (flag : Nat) (value : Bool) :
    IsOrdinary (flags.setUser flag value) :=
  ends_ite (fun _ => ends_fail rfl) fun _ => ends_ite (fun _ => ends_fail rfl) fun _ => trivial

theorem stays_askFlag (wanted clears : Bool) (argument : Argument) :
    (askFlag wanted clears argument).Stays calls floor fun _ _ => True := by
  refine stays_get fun machine settled => ?_
  refine stays_lift (ends_numberArgument settled argument) fun flag _ => ?_
  refine stays_ite (fun _ => stays_fail rfl) fun _ => stays_ite (fun _ => ?_) fun _ => ?_
  · refine stays_lift (ordinary_setUser _ _ _) fun flags _ => ?_
    refine (stays_set ?_).bind fun _ _ _ _ => stays_outcome (ordinary_answer _)
    exact { settled with }
  · exact stays_outcome (ordinary_answer _)

theorem stays_condition {opcode : Opcode} {argument : Argument} {action : Action Unit}
    (found : condition? opcode argument = some action) :
    action.Stays calls floor fun _ _ => True := by
  rw [condition?] at found
  split at found
  · cases found
    refine stays_get fun machine settled => stays_lift (ends_x settled) fun x _ => ?_
    exact stays_outcome (ordinary_compareWithZero _ x)
  split at found
  · cases found
    refine stays_get fun machine settled => ?_
    refine stays_lift (Stack.ordinary_require _ _) fun _ _ => ?_
    refine stays_lift (ends_y settled) fun y _ => stays_lift (ends_x settled) fun x _ => ?_
    exact stays_outcome (ordinary_compareWithY _ y x)
  split at found
  · cases found
    refine stays_get fun machine settled => stays_lift (ends_x settled) fun x _ => ?_
    exact stays_outcome (ordinary_answer _)
  · obtain ⟨wanted, -, rfl⟩ := Option.map_eq_some_iff.mp found
    exact stays_askFlag _ _ argument

theorem leads_countLoop (settled : machine.IsSettled calls floor) (up : Bool) {argument : Argument}
    (spares : machine.Avoids calls.names argument) :
    (countLoop up argument).Leads machine (IsSettled calls floor) fun _ _ => True := by
  refine leads_get ?_
  refine leads_lift settled (ends_valueAt settled spares) fun value _ => ?_
  refine leads_lift settled value.ordinary_asReal fun x _ => ?_
  refine (leads_store settled spares (Value.fits_real _)).bind fun _ after settledAfter _ => ?_
  exact stays_outcome (ordinary_answer _) after settledAfter

/-! ## The stack and the modes -/

theorem stays_changeStack {change : Stack → Stack}
    (stays : ∀ (free : Nat → Prop) (stack : Stack), stack.Fits free → (change stack).Fits free) :
    (changeStack change).Stays calls floor fun _ _ => True :=
  stays_modify fun _ settled => { settled with stack := stays _ _ settled.stack }

theorem stays_tryStack {change : Stack → Outcome Stack}
    (ends : ∀ (free : Nat → Prop) (stack : Stack), stack.Fits free →
      Ends (Stack.Fits free) (change stack)) :
    (tryStack change).Stays calls floor fun _ _ => True := by
  refine stays_get fun machine settled => ?_
  refine stays_lift (ends _ _ settled.stack) fun stack fits => ?_
  exact stays_set { settled with stack := fits }

theorem stays_stackCommand {opcode : Opcode} {action : Action Unit}
    (found : stackCommand? opcode = some action) : action.Stays calls floor fun _ _ => True := by
  have duplicate : (do push (← (← get).stack.x) : Action Unit).Stays calls floor fun _ _ => True :=
    stays_get fun machine settled => stays_lift (ends_x settled) fun x fits => stays_push fits
  unfold stackCommand? at found
  split at found <;> cases found
  · exact stays_setX Value.within_zero
  · exact duplicate
  · exact duplicate
  · exact stays_tryStack fun _ _ fits => fits.swap 0 1
  · exact stays_changeStack fun _ _ fits => fits.rollDown
  · exact stays_changeStack fun _ _ fits => fits.rollUp
  · exact stays_tryStack fun _ _ fits => fits.pop.map fun _ fits => fits
  · exact stays_changeStack fun _ stack _ => Stack.Fits.clear stack
  · exact stays_get fun machine settled => stays_pushLift settled.lastX
  · exact stays_changeStack fun _ _ fits => fits.setBig false
  · exact stays_changeStack fun _ _ fits => fits.setBig true
  · exact stays_pushLift (Value.fits_real _)
  · exact stays_joinOrSplit

theorem stays_changeFlags (change : Flags → Flags) :
    (changeFlags change).Stays calls floor fun _ _ => True :=
  stays_modify fun _ settled => { settled with }

theorem stays_setUserFlag (value : Bool) (argument : Argument) :
    (setUserFlag value argument).Stays calls floor fun _ _ => True := by
  refine stays_get fun machine settled => ?_
  refine stays_lift (ends_numberArgument settled argument) fun flag _ => ?_
  refine stays_lift (ordinary_setUser _ _ _) fun flags _ => ?_
  exact stays_set { settled with }

theorem stays_setDisplayMode (mode : Nat → DisplayMode) (argument : Argument) :
    (setDisplayMode mode argument).Stays calls floor fun _ _ => True := by
  refine stays_get fun machine settled => ?_
  refine stays_lift (ends_numberArgument settled argument) fun digits _ => ?_
  exact stays_ite (fun _ => stays_fail rfl) fun _ => stays_changeFlags _

theorem stays_modeCommand {opcode : Opcode} {argument : Argument} {action : Action Unit}
    (found : modeCommand? opcode argument = some action) :
    action.Stays calls floor fun _ _ => True := by
  unfold modeCommand? at found
  split at found <;> cases found
  · exact stays_setUserFlag true argument
  · exact stays_setUserFlag false argument
  · exact stays_changeFlags _
  · exact stays_changeFlags _
  · exact stays_changeFlags _
  · exact stays_changeFlags _
  · exact stays_changeFlags _
  · exact stays_setDisplayMode _ argument
  · exact stays_setDisplayMode _ argument
  · exact stays_setDisplayMode _ argument
  · exact stays_changeFlags _
  · exact stays_changeFlags _
  · exact stays_changeFlags _
  · exact stays_changeFlags _
  · exact stays_changeFlags _
  · exact stays_changeFlags _

/-! ## Arguments -/

theorem leads_withName (settled : machine.IsSettled calls floor) {argument : Argument}
    (spares : machine.Avoids calls.names argument) {action : List UInt8 → Action Unit}
    (leads : ∀ name, name ∉ calls.names →
      (action name).Leads machine (IsSettled calls floor) fun _ _ => True) :
    (withName argument action).Leads machine (IsSettled calls floor) fun _ _ => True :=
  leads_get (leads_lift settled (ends_nameArgument settled spares) leads)

theorem leads_withNumber (settled : machine.IsSettled calls floor) (argument : Argument)
    {action : Nat → Action Unit}
    (leads : ∀ number, (action number).Leads machine (IsSettled calls floor) fun _ _ => True) :
    (withNumber argument action).Leads machine (IsSettled calls floor) fun _ _ => True :=
  leads_get (leads_lift settled (ends_numberArgument settled argument) fun number _ =>
    leads number)

/-! ## Memory and the editor -/

/-- All commands on memory but the one that may shadow what is edited. -/
theorem leads_memoryCommand (settled : machine.IsSettled calls floor) {opcode : Opcode}
    {argument : Argument} (spares : opcode.namesVariable = true → machine.Avoids calls.names argument)
    (other : opcode ≠ .storeLocal) {action : Action Unit}
    (found : memoryCommand? opcode argument = some action) :
    action.Leads machine (IsSettled calls floor) fun _ _ => True := by
  unfold memoryCommand? at found
  split at found <;> cases found
  · refine leads_get (leads_lift settled (ends_x settled) fun x fits => ?_)
    exact leads_store settled (spares rfl) fits
  · refine leads_get (leads_lift settled (ends_valueAt settled (spares rfl)) fun value fits => ?_)
    exact ⟨settled.pushLifting fits, trivial⟩
  · contradiction
  · exact leads_exchangeX settled (spares rfl)
  · exact leads_storeAlpha settled (spares rfl)
  · exact leads_recallAlpha settled (spares rfl)
  · exact ⟨{ settled with }, trivial⟩
  · exact leads_get ⟨settled.pushLifting (Value.fits_real _), trivial⟩
  · exact leads_withName settled (spares rfl) fun _ unreserved =>
      leads_clearVariable settled unreserved
  · exact leads_clearRegisters settled
  · exact leads_withNumber settled argument (leads_resizeRegisters settled)
  · exact stays_newMatrix machine settled
  · exact stays_newList machine settled
  · exact leads_withName settled (spares rfl) fun _ unreserved => leads_dimension settled unreserved

theorem leads_editingCommand (settled : machine.IsSettled calls floor) {opcode : Opcode}
    {argument : Argument} (spares : opcode.namesVariable = true → machine.Avoids calls.names argument)
    {action : Action Unit} (found : editingCommand? opcode argument = some action) :
    action.Leads machine (IsSettled calls floor) fun _ _ => True := by
  have byRows : ∀ distance, (moveCursor fun editor rows cols => editor.moveByRows rows cols distance).Leads
      machine (IsSettled calls floor) fun _ _ => True := fun distance =>
    stays_moveCursor (fun editor rows cols => name_moveByRows editor rows cols distance) machine settled
  have byCols : ∀ distance, (moveCursor fun editor rows cols => editor.moveByCols rows cols distance).Leads
      machine (IsSettled calls floor) fun _ _ => True := fun distance =>
    stays_moveCursor (fun editor rows cols => name_moveByCols editor rows cols distance) machine settled
  unfold editingCommand? at found
  split at found <;> cases found
  · exact leads_withName settled (spares rfl) fun _ unreserved =>
      leads_beginEditing settled unreserved false
  · exact leads_withName settled (spares rfl) fun _ unreserved =>
      leads_beginEditing settled unreserved true
  · exact stays_storeCursor machine settled
  · exact stays_recallCursor machine settled
  · exact leads_storeElement settled
  · exact stays_recallElement machine settled
  · exact byRows 1
  · exact byRows 1
  · exact byRows (-1)
  · exact byRows (-1)
  · exact byCols 1
  · exact byCols (-1)
  · exact stays_leaveLeft machine settled
  · exact stays_enterRight machine settled
  · exact ⟨{ settled with editor := by simp }, trivial⟩

/-! ## The printer, the display and questions -/

theorem IsSettled.tellLines (settled : machine.IsSettled calls floor) (lines : List String) :
    (machine.tellLines lines).IsSettled calls floor := by
  induction lines generalizing machine with
  | nil => exact settled
  | cons line lines ih =>
      have told : (machine.tell (.printed (Text.toBytes line))).IsSettled calls floor :=
        { settled with }
      exact ih told

theorem ordinary_printerReady (machine : Machine) : IsOrdinary machine.printerReady :=
  ends_ite (fun _ => trivial) fun _ => ends_fail rfl

theorem stays_printLines {lines : Machine → Outcome (List String)}
    (ordinary : ∀ machine floor, machine.IsSettled calls floor → IsOrdinary (lines machine)) :
    (printLines lines).Stays calls floor fun _ _ => True := by
  refine stays_get fun machine settled => ?_
  refine stays_lift (ordinary_printerReady machine) fun ready _ => stays_ite (fun _ => ?_) fun _ => ?_
  · exact stays_lift (ordinary machine _ settled) fun lines _ => stays_set (settled.tellLines lines)
  · exact stays_pure fun _ _ => trivial

theorem stays_printText (text : String) : (printText text).Stays calls floor fun _ _ => True :=
  stays_printLines fun _ _ _ => trivial

theorem stays_printX : printX.Stays calls floor fun _ _ => True :=
  stays_printLines fun _ _ settled => (ends_x settled).bind fun _ _ => trivial

theorem stays_printVariable (name : List UInt8) :
    (printVariable name).Stays calls floor fun _ _ => True := by
  refine stays_printLines fun machine _ settled => ?_
  have ordinary : IsOrdinary (machine.variableNamed name) :=
    ordinary_recallOperand settled (.text name)
  exact ordinary.bind fun _ _ => trivial

theorem stays_printAlpha : printAlpha.Stays calls floor fun _ _ => True := by
  refine stays_get fun machine settled => ?_
  refine stays_lift (ordinary_printerReady machine) fun ready _ => stays_ite (fun _ => ?_) fun _ => ?_
  · exact stays_set { settled with }
  · exact stays_pure fun _ _ => trivial

theorem stays_printCatalogFrom (place : Nat) :
    (printCatalogFrom place).Stays calls floor fun _ _ => True := by
  refine stays_get fun machine settled => ?_
  refine stays_lift (ordinary_printerReady machine) fun ready _ => stays_ite (fun _ => ?_) fun _ => ?_
  · split
    · exact stays_pure fun _ _ => trivial
    · next entry _ =>
        exact stays_set { settled.tellLines (valueLines machine.flags (Text.ofBytes entry.name)
          entry.value) with }
  · exact stays_pure fun _ _ => trivial

theorem stays_showMessage (text : String) : (showMessage text).Stays calls floor fun _ _ => True :=
  stays_modify fun _ settled => { settled with }

theorem leads_view (settled : machine.IsSettled calls floor) {argument : Argument}
    (spares : machine.Avoids calls.names argument) :
    (view argument).Leads machine (IsSettled calls floor) fun _ _ => True := by
  refine leads_get (leads_lift settled (ends_valueAt settled spares) fun value _ => ?_)
  refine leads_lift settled (ordinary_shownArgument settled argument) fun label _ => ?_
  exact stays_showMessage _ machine settled

theorem stays_viewAlpha : viewAlpha.Stays calls floor fun _ _ => True :=
  stays_get fun _ _ => stays_showMessage _

theorem ends_askedValue (settled : machine.IsSettled calls floor) {argument : Argument}
    (spares : machine.Avoids calls.names argument) :
    Ends (Value.Fits (calls.free machine.nextStorage)) (machine.askedValue argument) := by
  have ends := ends_valueAt settled spares
  rw [askedValue]
  split
  · next error failed =>
      rw [failed] at ends
      exact ends_ite (fun _ => by trivial) fun _ => ends
  · exact ends

theorem leads_ask (settled : machine.IsSettled calls floor) {argument : Argument}
    (spares : machine.Avoids calls.names argument) :
    (ask argument).Leads machine (IsSettled calls floor) fun _ _ => True := by
  refine leads_get (leads_lift settled (ordinary_shownArgument settled argument) fun label _ => ?_)
  refine leads_lift settled (ends_askedValue settled spares) fun value fits => ?_
  refine leads_modify (leads_modify ?_)
  exact leads_fail { settled.pushLifting fits with } rfl

theorem stays_getKey : getKey.Stays calls floor fun _ _ => True := by
  refine stays_get fun machine settled => ?_
  split
  · next key keys popped =>
      have fewer : keys.keys.length ≤ KeyQueue.capacity := by
        have few := settled.keys
        rw [KeyQueue.pop?] at popped
        split at popped
        · cases popped
        · next first rest queue =>
            cases popped
            rw [queue, List.length_cons] at few
            exact (Nat.le_succ _).trans few
      refine (stays_set ?_).bind fun _ _ _ _ => stays_pushLift (Value.fits_real _)
      exact { settled with keys := fewer }
  · refine (stays_set ?_).bind fun _ _ _ _ => stays_fail rfl
    exact { settled with }

theorem stays_lightPixel : lightPixel.Stays calls floor fun _ _ => True := by
  refine stays_get fun machine settled => ?_
  refine stays_lift (Stack.ordinary_require _ _) fun _ _ => ?_
  refine stays_lift (ends_x settled) fun x _ => stays_lift x.ordinary_asReal fun col _ => ?_
  refine stays_lift (ends_y settled) fun y _ => stays_lift y.ordinary_asReal fun row _ => ?_
  refine stays_ite (fun _ => stays_fail rfl) fun _ => ?_
  have ordinary : ∀ x y, IsOrdinary (machine.display.setPixel x y) := fun x y =>
    ends_ite (fun _ => ends_fail rfl) fun _ => trivial
  refine stays_lift (Editor.ordinary_zeroBased col) fun i _ => ?_
  refine stays_lift (Editor.ordinary_zeroBased row) fun j _ => ?_
  exact stays_lift (ordinary _ _) fun display _ => stays_set { settled with }

theorem leads_outputCommand (settled : machine.IsSettled calls floor) {opcode : Opcode}
    {argument : Argument} (spares : opcode.namesVariable = true → machine.Avoids calls.names argument)
    {action : Action Unit} (found : outputCommand? opcode argument = some action) :
    action.Leads machine (IsSettled calls floor) fun _ _ => True := by
  unfold outputCommand? at found
  split at found <;> cases found
  · exact leads_view settled (spares rfl)
  · exact stays_viewAlpha machine settled
  · have stopping : (do viewAlpha; fail .stop : Action Unit).Stays calls floor fun _ _ => True :=
      stays_viewAlpha.bind fun _ _ _ _ => stays_fail rfl
    exact stopping machine settled
  · exact leads_ask settled (spares rfl)
  · exact stays_getKey machine settled
  · exact ⟨{ settled with }, trivial⟩
  · exact stays_lightPixel machine settled
  · exact stays_printX machine settled
  · exact leads_withName settled (spares rfl) fun name _ => stays_printVariable name machine settled
  · exact stays_printLines (fun _ _ _ => by trivial) machine settled
  · exact stays_printAlpha machine settled
  · exact stays_printCatalogFrom 0 machine settled
  · exact stays_printText "" machine settled

/-! ## General commands -/

theorem stays_recallLiteral (argument : Argument) :
    (recallLiteral argument).Stays calls floor fun _ _ => True := by
  unfold recallLiteral
  split
  · exact stays_pushLift (Value.fits_real _)
  · exact stays_outcome (by simp)

/-- All general commands but the one that makes the machine new. -/
theorem stays_generalCommand {opcode : Opcode} {argument : Argument} (other : opcode ≠ .clearAll)
    {action : Action Unit} (found : generalCommand? opcode argument = some action) :
    action.Stays calls floor fun _ _ => True := by
  unfold generalCommand? at found
  split at found <;> cases found
  · exact stays_recallLiteral argument
  · exact stays_modify fun _ settled => { settled with }
  · refine stays_lift (ordinary_ofText _) fun text isText => stays_pushLift ?_
    simp [isText]
  · refine stays_get fun machine settled => (stays_set ?_).bind fun _ _ _ _ =>
      stays_pushLift (Value.fits_real _)
    exact { settled with }
  · refine stays_get fun machine settled => stays_lift (ends_x settled) fun x _ => ?_
    exact stays_lift x.ordinary_asReal fun seed _ => stays_modify fun _ settled => { settled with }
  · contradiction

end Machine

end Keystroke
