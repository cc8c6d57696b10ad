import Mathlib
import Keystroke.Proofs.Calls.Operands

/-!
# Memory and the editor between calls

The commands that make, change and remove variables and arrays leave alone what calls keep, and so does
the matrix editor, whose variable has a name that calls do not use.
-/

namespace Keystroke

open Outcome Keystroke.Action
open Variable (globalLevel)

namespace Machine

variable {calls : Calls} {floor : Nat} {machine : Machine}

/-! ## The text register -/

theorem IsSettled.appendAlpha (settled : machine.IsSettled calls floor) (bytes : List UInt8) :
    (machine.appendAlpha bytes).IsSettled calls floor :=
  { settled with }

theorem ordinary_ofText (bytes : List UInt8) :
    Ends (fun value => value = .text bytes) (Value.ofText bytes) :=
  ends_ite (fun _ => by simp) fun _ => rfl

theorem leads_storeAlpha (settled : machine.IsSettled calls floor) {argument : Argument}
    (spares : machine.Avoids calls.names argument) :
    (storeAlpha argument).Leads machine (IsSettled calls floor) fun _ _ => True := by
  refine leads_get ?_
  refine leads_lift settled (ordinary_ofText _) fun text isText => ?_
  exact leads_store settled spares (by simp [isText])

theorem leads_recallAlpha (settled : machine.IsSettled calls floor) {argument : Argument}
    (spares : machine.Avoids calls.names argument) :
    (recallAlpha argument).Leads machine (IsSettled calls floor) fun _ _ => True := by
  refine leads_get ?_
  refine leads_lift settled (ends_valueAt settled spares) fun value _ => ?_
  split
  · exact ⟨settled.appendAlpha _, trivial⟩
  · exact ⟨settled.appendAlpha _, trivial⟩

/-! ## Variables -/

theorem leads_exchangeX (settled : machine.IsSettled calls floor) {argument : Argument}
    (spares : machine.Avoids calls.names argument) :
    (exchangeX argument).Leads machine (IsSettled calls floor) fun _ _ => True := by
  refine leads_raise settled (leads_get ?_)
  refine leads_lift settled.raise (ends_valueAt settled spares) fun recalled fits => ?_
  refine leads_lift settled.raise (ends_x settled) fun x fitsX => ?_
  refine (leads_store settled.raise spares fitsX).bind fun _ after settledAfter _ => ?_
  exact stays_setX fits after settledAfter

theorem IsSettled.checkEditor (settled : machine.IsSettled calls floor) :
    machine.checkEditor.IsSettled calls floor := by
  obtain ⟨editor, same, active⟩ := machine.exists_checkEditor
  rw [same]
  exact { settled with editor := fun found isFound => settled.editor found (active found isFound).1 }

theorem leads_clearVariable (settled : machine.IsSettled calls floor) {name : List UInt8}
    (unreserved : name ∉ calls.names) :
    (clearVariable name).Leads machine (IsSettled calls floor) fun _ _ => True := by
  refine ⟨?_, trivial⟩
  simp only [clearVariable, on_modify]
  split
  · next entry bindings purged =>
      have settledBindings := (settled.bindings.purge unreserved (entry, bindings) purged).2
      exact IsSettled.checkEditor { settled with bindings := settledBindings }
  · exact settled

theorem leads_replaceVariable (settled : machine.IsSettled calls floor) {index : Nat}
    (isOpen : machine.bindings.IsOpen calls.names index) {value : Value}
    (fits : value.Fits (calls.free machine.nextStorage)) :
    (replaceVariable index value).Leads machine (IsSettled calls floor) fun _ _ => True := by
  obtain ⟨le, fitsNumbered⟩ := Value.fits_numbered settled.taken value fits
  refine leads_adopt ?_
  exact ⟨(settled.giveOut le).setVariable isOpen fitsNumbered, trivial⟩

theorem leads_clearRegisters (settled : machine.IsSettled calls floor) :
    clearRegisters.Leads machine (IsSettled calls floor) fun _ _ => True := by
  refine leads_get ?_
  refine leads_lift settled (ends_registers settled) ?_
  rintro ⟨index, registers⟩ ⟨isOpen, fits⟩
  dsimp only at isOpen fits ⊢
  split
  · next same =>
      cases same
      exact leads_replaceVariable settled isOpen
        (Value.within_newRealMatrix.mpr fits.2)
  · next same =>
      cases same
      exact leads_replaceVariable settled isOpen
        (Value.within_newComplexMatrix.mpr fits.2)
  · exact leads_fail settled rfl

theorem ends_zeroMatrix {memory : Nat} (room : memory ≤ Grid.sizeLimit) (free : Nat → Prop) (rows cols : Nat) :
    Ends (Value.Fits free) (zeroMatrix memory rows cols) :=
  (Grid.ends_filled room rows cols _).bind fun _ small => Value.within_newRealMatrix.mpr small

theorem leads_resizeVariable (settled : machine.IsSettled calls floor) {index : Nat}
    (isOpen : machine.bindings.IsOpen calls.names index) (rows cols : Nat) :
    (resizeVariable index rows cols).Leads machine (IsSettled calls floor) fun _ _ => True := by
  refine leads_get ?_
  cases got : machine.bindings.get? index with
  | none => exact leads_fail settled rfl
  | some entry =>
      have fits := settled.bindings.fits_get isOpen entry got
      have own : ∀ number ∈ some machine.nextStorage, calls.free (machine.nextStorage + 1) number := by
        simpa using free_newStorage settled le_rfl (Nat.lt_succ_self _)
      simp only [Option.map_some]
      split
      · next storage grid same =>
          rw [Option.some.inj same] at fits
          have moved := (settled.giveOut (Nat.le_add_right _ 1)).setVariable isOpen
            (show Value.Fits _ (.realMatrix (some machine.nextStorage) grid) from ⟨own, fits.2⟩)
          refine leads_newStorage (leads_modify ?_)
          refine leads_lift moved (Grid.ends_resize settled.memory rows cols fits.2 _) fun changed small => ?_
          exact ⟨moved.setVariable (isOpen.setValue index _)
            (show Value.Fits _ (.realMatrix (some machine.nextStorage) changed) from ⟨own, small⟩),
            trivial⟩
      · exact leads_fail settled rfl

theorem leads_resizeRegisters (settled : machine.IsSettled calls floor) (count : Nat) :
    (resizeRegisters count).Leads machine (IsSettled calls floor) fun _ _ => True := by
  refine leads_get (leads_ite (fun _ => ?_) fun _ => ?_)
  · split
    · next entry bindings purged =>
        have settledBindings :=
          (settled.bindings.purge settled.registers (entry, bindings) purged).2
        exact ⟨IsSettled.checkEditor { settled with bindings := settledBindings }, trivial⟩
    · exact ⟨settled.checkEditor, trivial⟩
  · split
    · next index found =>
        exact leads_resizeVariable settled
          (Variables.IsSettled.isOpen_of_lookup found settled.registers) count 1
    · refine leads_lift settled (ends_zeroMatrix settled.memory (calls.free machine.nextStorage) count 1)
        fun matrix fits => ?_
      obtain ⟨le, fitsNumbered⟩ := Value.fits_numbered settled.taken matrix fits
      refine leads_adopt (leads_get ?_)
      have settledLater := settled.giveOut le
      refine leads_lift settledLater (settledLater.bindings.store (IsSettled.globalLevel_le machine)
        settled.registers fitsNumbered globalLevel) fun bindings settledBindings => ?_
      exact ⟨{ settledLater with bindings := settledBindings }, trivial⟩

theorem ordinary_wantedDimensions (machine : Machine) : IsOrdinary machine.wantedDimensions := by
  have x : IsOrdinary machine.stack.x := by
    rw [Stack.x]
    split
    · exact ends_fail rfl
    · trivial
  have y : IsOrdinary machine.y := by
    rw [Machine.y]
    split
    · trivial
    · exact ends_fail rfl
  refine (Stack.ordinary_require _ _).bind fun _ _ => ?_
  refine x.bind fun x _ => x.ordinary_asReal.bind fun _ _ => ?_
  refine y.bind fun y _ => y.ordinary_asReal.bind fun _ _ => ?_
  exact ends_ite (fun _ => ends_fail rfl) fun _ => trivial

theorem leads_dimension (settled : machine.IsSettled calls floor) {name : List UInt8}
    (unreserved : name ∉ calls.names) :
    (dimension name).Leads machine (IsSettled calls floor) fun _ _ => True := by
  refine leads_get ?_
  refine leads_lift settled (ordinary_wantedDimensions machine) fun dimensions _ => ?_
  obtain ⟨rows, cols⟩ := dimensions
  dsimp only
  split
  · next index found =>
      exact leads_resizeVariable settled (Variables.IsSettled.isOpen_of_lookup found unreserved) _ _
  · refine leads_lift settled (ends_zeroMatrix settled.memory (calls.free machine.nextStorage) rows cols)
      fun matrix fits => ?_
    obtain ⟨le, fitsNumbered⟩ := Value.fits_numbered settled.taken matrix fits
    exact leads_adopt (leads_storeName (settled.giveOut le) unreserved fitsNumbered)

theorem stays_newMatrix : newMatrix.Stays calls floor fun _ _ => True := by
  refine stays_get fun machine settled => ?_
  refine stays_lift (ordinary_wantedDimensions machine) fun dimensions _ => ?_
  obtain ⟨rows, cols⟩ := dimensions
  refine stays_lift (ends_zeroMatrix settled.memory (calls.free machine.nextStorage) rows cols)
    fun matrix fits => ?_
  refine (stays_adopt fits).bind fun bound matrix le fits => ?_
  refine stays_lift ((settled.stack.later le).replaceTop fits 2) fun stack fitsStack => ?_
  exact stays_modify fun machine settled =>
    { settled with stack := fitsStack.later settled.floor }

theorem stays_newList : newList.Stays calls floor fun _ _ => True := by
  have empty : (Value.list none []).Fits (calls.free floor) := ⟨by simp, trivial⟩
  exact (stays_adopt empty).bind fun _ _ _ fits => stays_pushLift fits

/-! ## The editor -/

theorem ends_activeEditor (settled : machine.IsSettled calls floor) :
    Ends (fun editor => editor.name ∉ calls.names) machine.activeEditor := by
  rw [activeEditor]
  split
  · next editor found => exact settled.editor editor found
  · exact ends_fail rfl

theorem IsSettled.setEditor (settled : machine.IsSettled calls floor) {editor : Editor}
    (unreserved : editor.name ∉ calls.names) :
    ({ machine with editor := some editor } : Machine).IsSettled calls floor :=
  { settled with
    editor := fun other found => by
      obtain rfl := Option.some.inj found
      exact unreserved }

theorem stays_setEditor {editor : Editor} (unreserved : editor.name ∉ calls.names) :
    (setEditor editor).Stays calls floor fun _ _ => True :=
  stays_modify fun _ settled => settled.setEditor unreserved

end Machine

namespace Editor

variable {free : Nat → Prop}

theorem ordinary_dimensions (value : Value) : IsOrdinary (dimensions value) := by
  cases value <;> trivial

theorem ordinary_zeroBased (x : Binary64) : IsOrdinary (zeroBased x) := by
  rw [zeroBased]
  split
  · exact ends_fail rfl
  · trivial

theorem ordinary_oneBased (index : Nat) : IsOrdinary (oneBased index) :=
  ends_ite (fun _ => ends_fail rfl) fun _ => trivial

theorem ends_element {value : Value} (fits : value.Fits free) (row col : Nat) :
    Ends (Value.Fits free) (element value row col) := by
  unfold element
  extract_lets found
  have ends_found (item : Option Value) (fits : ∀ value ∈ item, value.Fits free) :
      Ends (Value.Fits free) (found item) := by
    cases item with
    | none => exact ends_fail rfl
    | some item => exact fits item rfl
  split
  · exact ends_found _ (by simp)
  · exact ends_found _ (by simp)
  · next storage items =>
      exact ends_found _ fun item got =>
        Value.allFit_iff.mp fits.2 item (List.mem_of_getElem? got)
  · exact ends_fail rfl

theorem ends_follow (path : List Nat) {value : Value} (fits : value.Fits free) :
    Ends (Value.Fits free) (follow path value) := by
  induction path generalizing value with
  | nil =>
      rw [follow]
      exact fits
  | cons index path ih =>
      cases value with
      | list storage items =>
          rw [follow]
          split
          · next item got => exact ih (Value.allFit_iff.mp fits.2 item (List.mem_of_getElem? got))
          · exact ends_fail rfl
      | _ => exact ends_fail rfl

/-- A changed array keeps to free storages, and its error is no lost package. -/
def Stored (free : Nat → Prop) (stored : Value × Outcome Unit) : Prop :=
  stored.1.Fits free ∧ IsOrdinary stored.2

theorem stored_unchanged {target : Value} (fits : target.Fits free) {kind : ErrorKind}
    (found : (kind == .returnLost) = false) : Stored free (target, fail kind) :=
  ⟨fits, ends_fail found⟩

section

variable {storage : Nat} (isFree : free storage)

include isFree

theorem stored_real {grid : Grid Cell} (small : Grid.IsSmall grid.rows grid.cols) (row col : Nat)
    (cell : Cell) : Stored free (storeReal (some storage) grid row col cell) := by
  have own : ∀ number ∈ some storage, free number := by simpa using isFree
  have ends := Grid.ends_set grid row col cell
  rw [storeReal]
  split
  · next changed stored =>
      rw [stored] at ends
      obtain ⟨rows, cols⟩ : changed.rows = grid.rows ∧ changed.cols = grid.cols := ends
      exact ⟨⟨own, rows ▸ cols ▸ small⟩, trivial⟩
  · next error stored =>
      rw [stored] at ends
      exact ⟨⟨own, small⟩, ends⟩

theorem stored_complex {grid : Grid ComplexNumber} (small : Grid.IsSmall grid.rows grid.cols)
    (row col : Nat) (element : ComplexNumber) :
    Stored free (storeComplex (some storage) grid row col element) := by
  have own : ∀ number ∈ some storage, free number := by simpa using isFree
  have ends := Grid.ends_set grid row col element
  rw [storeComplex]
  split
  · next changed stored =>
      rw [stored] at ends
      obtain ⟨rows, cols⟩ : changed.rows = grid.rows ∧ changed.cols = grid.cols := ends
      exact ⟨⟨own, rows ▸ cols ▸ small⟩, trivial⟩
  · next error stored =>
      rw [stored] at ends
      exact ⟨⟨own, small⟩, ends⟩

variable {value : Value} (fitsValue : value.Fits free)

include fitsValue

theorem stored_item {items : List Value} (fit : ∀ item ∈ items, item.Fits free) (row : Nat) :
    Stored free (storeItem (some storage) items row value) := by
  have own : ∀ number ∈ some storage, free number := by simpa using isFree
  rw [storeItem]
  split
  · refine ⟨⟨own, Value.allFit_iff.mpr fun item member => ?_⟩, trivial⟩
    rcases List.mem_or_eq_of_mem_set member with older | rfl
    · exact fit item older
    · exact fitsValue
  · split
    · refine ⟨⟨own, Value.allFit_iff.mpr fun item member => ?_⟩, trivial⟩
      rcases List.mem_append.mp member with older | last
      · exact fit item older
      · exact List.mem_singleton.mp last ▸ fitsValue
    · exact stored_unchanged (show Value.Fits free (.list (some storage) items) from
        ⟨own, Value.allFit_iff.mpr fit⟩) rfl

theorem stored_element (row col : Nat) {target : Value} (fits : target.Fits free) :
    Stored free (storeElement (some storage) row col value target) := by
  unfold storeElement
  split
  · exact stored_real isFree fits.2 ..
  · exact stored_real isFree fits.2 ..
  · exact stored_complex isFree fits.2 ..
  · exact stored_complex isFree fits.2 ..
  · exact stored_unchanged fits rfl
  · exact stored_item isFree fitsValue (Value.allFit_iff.mp fits.2) row
  · exact stored_unchanged fits rfl

end

/-- Storing along a path needs a free storage for every list on the way and for what is at its end. -/
theorem stored_along (row col : Nat) {value : Value} (fitsValue : value.Fits free)
    (path : List Nat) {storage : Nat} (areFree : ∀ number, storage ≤ number →
      number ≤ storage + path.length → free number) {target : Value} (fits : target.Fits free) :
    Stored free (storeAlong row col value path storage target) := by
  -- The lists on the way take the storages from the first on, one for each index.
  induction path generalizing storage target with
  | nil =>
      rw [storeAlong]
      exact stored_element (areFree storage le_rfl (Nat.le_add_right _ _)) fitsValue row col fits
  | cons index path ih =>
      have own : ∀ number ∈ some storage, free number := by
        simpa using areFree storage le_rfl (Nat.le_add_right _ _)
      cases target with
      | list place items =>
          have fit := Value.allFit_iff.mp fits.2
          rw [storeAlong]
          split
          · next item got =>
              have inner : Stored free (storeAlong row col value path (storage + 1) item) :=
                ih (fun number low high => areFree number (by omega)
                  (by simp only [List.length_cons]; omega)) (fit item (List.mem_of_getElem? got))
              refine ⟨⟨own, Value.allFit_iff.mpr fun other member => ?_⟩, inner.2⟩
              rcases List.mem_or_eq_of_mem_set member with older | rfl
              · exact fit other older
              · exact inner.1
          · exact stored_unchanged (show Value.Fits free (.list (some storage) items) from
              ⟨own, fits.2⟩) rfl
      | _ => exact stored_unchanged fits rfl

end Editor

namespace Machine

variable {calls : Calls} {floor : Nat} {machine : Machine}

theorem ends_edited (settled : machine.IsSettled calls floor) :
    Ends (Value.Fits (calls.free machine.nextStorage)) machine.edited :=
  (ends_activeEditor settled).bind fun editor unreserved =>
    (ends_variableNamed settled unreserved).bind fun _ fits => Editor.ends_follow editor.path fits

theorem leads_beginEditing (settled : machine.IsSettled calls floor) {name : List UInt8}
    (unreserved : name ∉ calls.names) (isEditing : Bool) :
    (beginEditing name isEditing).Leads machine (IsSettled calls floor) fun _ _ => True := by
  refine leads_get ?_
  split
  · exact leads_fail settled rfl
  · next entry found =>
      obtain ⟨index, found, got⟩ := Option.bind_eq_some_iff.mp found
      have fits := settled.bindings.fits_get
        (Variables.IsSettled.isOpen_of_lookup found unreserved) entry got
      refine leads_lift settled (Editor.ordinary_dimensions entry.value) fun _ _ => ?_
      refine leads_modify (leads_ite (fun _ => ?_) fun _ => ⟨settled.setEditor unreserved, trivial⟩)
      have begun : ({ machine with
          editor := some ⟨isEditing, name, entry.level, 0, 0, []⟩ } : Machine).IsSettled calls floor :=
        settled.setEditor unreserved
      have ends := Editor.ends_element fits 0 0
      split
      · next element found =>
          rw [found] at ends
          exact ⟨begun.pushLifting ends, trivial⟩
      · exact ⟨begun, trivial⟩

theorem stays_storeCursor : storeCursor.Stays calls floor fun _ _ => True := by
  refine stays_get fun machine settled => ?_
  refine stays_lift (Stack.ordinary_require _ _) fun _ _ => ?_
  refine stays_lift (ends_x settled) fun x _ => stays_lift x.ordinary_asReal fun col _ => ?_
  refine stays_lift (ends_y settled) fun y _ => stays_lift y.ordinary_asReal fun row _ => ?_
  refine stays_lift (ends_edited settled) fun target _ => ?_
  refine stays_lift (Editor.ordinary_dimensions target) fun dimensions _ => ?_
  refine stays_ite (fun _ => stays_fail rfl) fun _ => ?_
  refine stays_lift (ends_activeEditor settled) fun editor unreserved => ?_
  refine stays_lift (Editor.ordinary_zeroBased row) fun i _ => ?_
  refine stays_lift (Editor.ordinary_zeroBased col) fun j _ => ?_
  exact stays_setEditor unreserved

theorem stays_recallCursor : recallCursor.Stays calls floor fun _ _ => True := by
  refine stays_get fun machine settled => ?_
  refine stays_lift (ends_activeEditor settled) fun editor _ => ?_
  refine stays_lift (Editor.ordinary_oneBased editor.row) fun row _ => ?_
  refine (stays_pushLift (Value.fits_real _)).bind fun _ _ _ _ => ?_
  refine stays_lift (Editor.ordinary_oneBased editor.col) fun col _ => ?_
  exact stays_push (Value.fits_real _)

theorem leads_storeElement (settled : machine.IsSettled calls floor) :
    storeElement.Leads machine (IsSettled calls floor) fun _ _ => True := by
  refine leads_get ?_
  refine leads_lift settled (ends_x settled) fun x fitsX => ?_
  refine leads_lift settled (ends_activeEditor settled) fun editor unreserved => ?_
  split
  · exact leads_fail settled rfl
  · next index found =>
      have isOpen := Variables.IsSettled.isOpen_of_lookup found unreserved
      split
      · exact leads_fail settled rfl
      · next entry got =>
          refine leads_newStorage ?_
          have given := settled.giveOut (Nat.le_add_right _ (editor.path.length + 1))
          have stored := Editor.stored_along editor.row editor.col
            (fitsX.later (Nat.le_add_right _ (editor.path.length + 1))) editor.path
            (fun number low high => free_newStorage settled low (by omega))
            ((settled.bindings.fits_get isOpen entry got).later (Nat.le_add_right _ _))
          refine leads_modify ?_
          have changed := given.setVariable isOpen stored.1
          exact ⟨changed, stored.2.within⟩

theorem stays_recallElement : recallElement.Stays calls floor fun _ _ => True := by
  refine stays_get fun machine settled => ?_
  refine stays_lift (ends_activeEditor settled) fun editor _ => ?_
  refine stays_lift (ends_edited settled) fun target fits => ?_
  exact stays_lift (Editor.ends_element fits _ _) fun element fits => stays_pushLift fits

theorem stays_moveCursor {move : Editor → Nat → Nat → Editor}
    (same : ∀ editor rows cols, (move editor rows cols).name = editor.name) :
    (moveCursor move).Stays calls floor fun _ _ => True := by
  refine stays_get fun machine settled => ?_
  refine stays_lift (ends_edited settled) fun target _ => ?_
  refine stays_lift (Editor.ordinary_dimensions target) fun dimensions _ => ?_
  refine stays_lift (ends_activeEditor settled) fun editor unreserved => ?_
  exact stays_setEditor (same editor _ _ ▸ unreserved)

theorem name_moveByRows (editor : Editor) (rows cols : Nat) (distance : Int) :
    (editor.moveByRows rows cols distance).name = editor.name := by
  rw [Editor.moveByRows]
  split <;> rfl

theorem name_moveByCols (editor : Editor) (rows cols : Nat) (distance : Int) :
    (editor.moveByCols rows cols distance).name = editor.name := by
  rw [Editor.moveByCols]
  split <;> rfl

theorem stays_leaveLeft : leaveLeft.Stays calls floor fun _ _ => True := by
  refine stays_get fun machine settled => ?_
  refine stays_lift (ends_activeEditor settled) fun editor unreserved => ?_
  split
  · exact stays_setEditor unreserved
  · exact stays_moveCursor fun editor rows cols => name_moveByCols editor rows cols _

theorem stays_enterRight : enterRight.Stays calls floor fun _ _ => True := by
  refine stays_get fun machine settled => ?_
  refine stays_lift (ends_activeEditor settled) fun editor unreserved => ?_
  refine stays_lift (ends_edited settled) fun target _ => ?_
  split
  · split
    · exact stays_setEditor unreserved
    · exact stays_fail rfl
  · exact stays_moveCursor fun editor rows cols => name_moveByCols editor rows cols _

end Machine

end Keystroke
