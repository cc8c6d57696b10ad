import Mathlib
import Keystroke.Machine.Command
import Keystroke.Proofs.Answers
import Keystroke.Proofs.NumberOrder

/-!
# Rows and columns given as numbers

The cursor of the matrix editor and the pixels of the display are chosen by numbers on the stack. A number that
passes the comparisons with the limits is an index within them. A NaN passes every comparison and is no
index: it counts as zero, there is nothing in front of the first place, and the program that runs the machine
crashes.
-/

namespace Keystroke

open Keystroke.Action Keystroke.Outcome

/-! ## Lighting a pixel -/

namespace Display

variable {display after : Display} {x y i j : Nat}

/-- Two pixels in one byte are two bits. -/
theorem mask_and_mask (x i : Nat) : (mask x &&& mask i != 0) = decide (i % 8 = x % 8) := by
  have all : ∀ bit other : Fin 8, ((Nat.pow 2 bit).toUInt8 &&& (Nat.pow 2 other).toUInt8 != 0) =
      decide (other.val = bit.val) := by decide
  exact all ⟨x % 8, Nat.mod_lt _ (by decide)⟩ ⟨i % 8, Nat.mod_lt _ (by decide)⟩

theorem or_and_ne_zero (first second third : UInt8) :
    ((first ||| second) &&& third != 0) = (first &&& third != 0 || second &&& third != 0) := by
  have distributes : (first ||| second) &&& third = first &&& third ||| second &&& third := by
    apply UInt8.toNat_inj.mp
    simp only [UInt8.toNat_and, UInt8.toNat_or, Nat.and_or_distrib_right]
  rw [distributes, Bool.eq_iff_iff, Bool.or_eq_true, bne_iff_ne, bne_iff_ne, bne_iff_ne, ne_eq,
    UInt8.or_eq_zero_iff, not_and_or]

theorem place_lt (within : x < width) (inside : y < height) : place x y < 272 := by
  simp only [place, width, height, bytesPerRow] at *
  omega

/-- Two pixels in different bytes differ in their row, or in more than the last three bits of the column. -/
theorem eq_of_place_eq (within : i < width) (other : x < width) (same : place i j = place x y) :
    j = y ∧ i / 8 = x / 8 := by
  simp only [place, width, bytesPerRow] at *
  omega

/-- Exactly one pixel is lit. -/
theorem pixel_setPixel (lights : display.setPixel x y = .ok after) (i j : Nat) :
    x < width ∧ y < height ∧
      after.pixel i j = (display.pixel i j || decide (i = x ∧ j = y)) := by
  rw [setPixel] at lights
  split at lights
  · cases lights
  next inside =>
    obtain ⟨within, below⟩ : x < width ∧ y < height := by omega
    refine ⟨within, below, ?_⟩
    obtain rfl := Except.ok.inj lights
    have bound := place_lt within below
    simp only [pixel]
    by_cases column : i < width
    · by_cases row : j < height
      · have otherBound := place_lt column row
        simp only [column, row, decide_true, Bool.true_and, Array.getD_eq_getD_getElem?,
          Vector.getElem?_toArray, Vector.getElem?_eq_getElem bound,
          Vector.getElem?_eq_getElem otherBound, Option.getD_some, Vector.getElem_setIfInBounds]
        by_cases same : place x y = place i j
        · obtain ⟨sameRow, sameByte⟩ := eq_of_place_eq column within same.symm
          have sameColumn : i = x ↔ i % 8 = x % 8 := by omega
          simp only [same, if_true, or_and_ne_zero, mask_and_mask, sameRow, and_true, sameColumn]
        · have apart : ¬(i = x ∧ j = y) := fun both => same (by rw [both.1, both.2])
          simp [same, apart]
      · have apart : ¬(i = x ∧ j = y) := by omega
        simp [row, apart]
    · have apart : ¬(i = x ∧ j = y) := by omega
      simp [column, apart]

end Display

/-! ## Numbers as indices -/

namespace Editor

/-- A number that stands for an index below a limit. A limit that a real number holds exactly is kept. -/
structure IsIndexBelow (limit : Nat) (x : Binary64) (index : Nat) : Prop where
  isNumber : x.isNaN = false
  isIndex : zeroBased x = .ok index
  below : limit < 2 ^ 53 → index < limit

variable {x : Binary64}

theorem zeroBased_of_isNaN (isNaN : x.isNaN = true) : zeroBased x = fail .crash := by
  have none : x.toNatUpTo indexLimit = 0 := by
    rw [Binary64.toNatUpTo, isNaN]
    rfl
  rw [zeroBased, none]

/-- A number that is not below one is an index, as far as indices go. -/
theorem zeroBased_of_not_lt (isNumber : x.isNaN = false) (notBelow : ¬x < 1) :
    zeroBased x = .ok (if x.isInfinite then indexLimit - 1 else min indexLimit x.wholePart - 1) := by
  have one : (1 : Binary64) = .ofNat 1 := by decide +kernel
  obtain ⟨unsigned, whole⟩ :=
    Binary64.of_not_lt_ofNat Nat.one_pos (by decide) isNumber (one ▸ notBelow)
  have counted : x.toNatUpTo indexLimit =
      if x.isInfinite then indexLimit else min indexLimit x.wholePart := by
    simp [Binary64.toNatUpTo, isNumber, unsigned]
  have limit : 0 < indexLimit := by decide
  have positive : x.toNatUpTo indexLimit ≠ 0 := by
    rw [counted]
    split <;> omega
  obtain ⟨index, next⟩ := Nat.exists_eq_succ_of_ne_zero positive
  rw [zeroBased, next]
  rw [counted] at next
  split at next <;> simp_all

/-- What passed the comparison with one is a NaN or an index, which is below every limit that it is compared with. -/
theorem isNaN_or_isIndexBelow (notBelow : ¬x < 1) :
    (x.isNaN = true ∧ zeroBased x = fail .crash) ∨
      ∃ index, zeroBased x = .ok index ∧ ∀ limit : Nat, ¬.ofNat limit < x → IsIndexBelow limit x index := by
  cases isNumber : x.isNaN with
  | true => exact .inl ⟨rfl, zeroBased_of_isNaN isNumber⟩
  | false =>
      have isIndex := zeroBased_of_not_lt isNumber notBelow
      refine .inr ⟨_, isIndex, fun limit notAbove => ⟨isNumber, isIndex, fun fits => ?_⟩⟩
      have one : (1 : Binary64) = .ofNat 1 := by decide +kernel
      obtain ⟨unsigned, whole⟩ :=
        Binary64.of_not_lt_ofNat Nat.one_pos (by decide) isNumber (one ▸ notBelow)
      obtain ⟨finite, bound⟩ := Binary64.of_not_ofNat_lt fits isNumber unsigned notAbove
      rw [finite]
      simp only [Bool.false_eq_true, if_false]
      omega

end Editor

/-! ## Putting the cursor -/

namespace Machine

variable {machine after : Machine} {value : Value}

/-- What a machine comes to when the cursor of its editor is put on a row and a column. -/
inductive PutsCursor (machine : Machine) : Machine → Prop
  | intro {editor : Editor} {target : Value} {rows cols row col : Nat} {x y : Binary64}
      (active : machine.activeEditor = .ok editor) (isEdited : machine.edited = .ok target)
      (dimensions : Editor.dimensions target = .ok (rows, cols))
      (inX : machine.stack.x = .ok (.real x)) (inY : machine.y = .ok (.real y))
      (isRow : Editor.IsIndexBelow (rowLimit target rows) y row) (isCol : Editor.IsIndexBelow cols x col) :
      PutsCursor machine { machine with editor := some { editor with row, col } }

/-- What a machine comes to when a pixel of its display is lit. -/
inductive LightsPixel (machine : Machine) : Machine → Prop
  | intro {display : Display} {row col : Nat} {x y : Binary64}
      (inX : machine.stack.x = .ok (.real x)) (inY : machine.y = .ok (.real y))
      (numbers : x.isNaN = false ∧ y.isNaN = false)
      (indices : Editor.zeroBased x = .ok col ∧ Editor.zeroBased y = .ok row)
      (inside : col < 131 ∧ row < 16)
      (lit : ∀ i j, display.pixel i j = (machine.display.pixel i j || decide (i = col ∧ j = row))) :
      LightsPixel machine { machine with display, calls := .pixelChanged col row :: machine.calls }

/-- How an action ends that puts the numbers in X and Y to use: it does what it is for, or it fails with an error
to be shown and the machine as it was. It crashes only on a NaN. -/
inductive Concludes (machine : Machine) (done : Machine → Prop) : Outcome Unit × Machine → Prop
  | does {after : Machine} (isDone : done after) : Concludes machine done (.ok (), after)
  | fails {error : Error} (isShown : error.kind.isSignal = false) : Concludes machine done (.error error, machine)
  | crashes {x y : Binary64} (inX : machine.stack.x = .ok (.real x)) (inY : machine.y = .ok (.real y))
      (isNaN : x.isNaN = true ∨ y.isNaN = true) : Concludes machine done (fail .crash, machine)

theorem isShown_require (stack : Stack) (count : Nat) : (stack.require count).IsShown :=
  ends_ite (fun _ => isShown_fail rfl) fun _ => isShown_ok _

theorem isShown_asReal (value : Value) : value.asReal.IsShown := by
  cases value <;> first | exact isShown_ok _ | exact isShown_fail rfl

theorem isShown_y (machine : Machine) : machine.y.IsShown := by
  rw [y]
  split
  · exact isShown_ok _
  · exact isShown_fail rfl

theorem isShown_activeEditor (machine : Machine) : machine.activeEditor.IsShown := by
  rw [activeEditor]
  split
  · exact isShown_ok _
  · exact isShown_fail rfl

theorem isShown_follow (path : List Nat) (value : Value) : (Editor.follow path value).IsShown := by
  induction path generalizing value with
  | nil => exact isShown_ok _
  | cons index path ih =>
      cases value with
      | list storage items =>
          rw [Editor.follow]
          split
          · exact ih _
          · exact isShown_fail rfl
      | _ => exact isShown_fail rfl

theorem isShown_edited (machine : Machine) : machine.edited.IsShown := by
  refine (isShown_activeEditor machine).bind fun editor _ => ?_
  have named := isShown_recallOperand machine (.text editor.name)
  exact EndsIn.bind named fun value _ => isShown_follow _ _

theorem isShown_dimensions (value : Value) : (Editor.dimensions value).IsShown := by
  cases value <;> first | exact isShown_ok _ | exact isShown_fail rfl

theorem eq_real_of_asReal {x : Binary64} (isReal : value.asReal = .ok x) : value = .real x := by
  cases value <;> cases isReal
  rfl

namespace Concludes

variable {α : Type} {done : Machine → Prop}

/-- What is found out first may be an error to be shown. -/
theorem found {outcome : Outcome α} {next : α → Action Unit} (shown : outcome.IsShown)
    (concludes : ∀ result, outcome = .ok result → machine.Concludes done ((next result).on machine)) :
    machine.Concludes done ((liftM outcome >>= next).on machine) := by
  cases found : outcome with
  | ok result =>
      rw [on_bind_ok (on_lift machine _)]
      exact concludes result found
  | error error =>
      rw [on_bind_error (on_lift machine _)]
      rw [found] at shown
      exact .fails shown

/-- A check may refuse the numbers. -/
theorem check {condition : Prop} [Decidable condition] {kind : ErrorKind} {action : Action Unit}
    (shown : kind.isSignal = false)
    (concludes : ¬ condition → machine.Concludes done (action.on machine)) :
    machine.Concludes done
      ((if condition then liftM (fail kind : Outcome Unit) >>= fun _ => action else action).on machine) := by
  split
  · exact .fails shown
  · next passed => exact concludes passed

/-- A number that is not below one is converted, unless it is a NaN. -/
theorem convert {x y number : Binary64} {next : Nat → Action Unit} (inX : machine.stack.x = .ok (.real x))
    (inY : machine.y = .ok (.real y)) (isNumber : number = x ∨ number = y) (notBelow : ¬number < 1)
    (concludes : ∀ index, Editor.zeroBased number = .ok index →
      (∀ limit : Nat, ¬.ofNat limit < number → Editor.IsIndexBelow limit number index) →
        machine.Concludes done ((next index).on machine)) :
    machine.Concludes done ((liftM (Editor.zeroBased number) >>= next).on machine) := by
  obtain ⟨isNaN, crash⟩ | ⟨index, isIndex, below⟩ := Editor.isNaN_or_isIndexBelow notBelow
  · rw [crash, on_bind_error (show (liftM (fail .crash : Outcome Nat) : Action Nat).on machine = _ from rfl)]
    refine .crashes inX inY ?_
    obtain rfl | rfl := isNumber
    · exact .inl isNaN
    · exact .inr isNaN
  · rw [isIndex, on_bind_ok (on_lift machine _)]
    exact concludes index isIndex below

variable {run : Outcome Unit × Machine}

theorem of_ok (ends : machine.Concludes done run) (succeeds : run.1 = .ok ()) : done run.2 := by
  cases ends with
  | does isDone => exact isDone
  | fails => cases succeeds
  | crashes => cases succeeds

theorem of_error {error : Error} (ends : machine.Concludes done run) (fails : run.1 = .error error) :
    run.2 = machine := by
  cases ends with
  | does => cases fails
  | fails => rfl
  | crashes => rfl

end Concludes

theorem concludes_storeCursor (machine : Machine) :
    machine.Concludes machine.PutsCursor (storeCursor.on machine) := by
  rw [storeCursor, on_bind_ok (on_get machine)]
  refine .found (isShown_require _ _) fun _ _ => ?_
  refine .found (isShown_x _) fun inX x => .found (isShown_asReal _) fun col isCol => ?_
  refine .found (isShown_y _) fun inY y => .found (isShown_asReal _) fun row isRow => ?_
  obtain rfl := eq_real_of_asReal isCol
  obtain rfl := eq_real_of_asReal isRow
  refine .found (isShown_edited _) fun target isEdited => ?_
  refine .found (isShown_dimensions _) fun ⟨rows, cols⟩ dimensions => ?_
  refine .check rfl fun within => ?_
  simp only [not_or] at within
  refine .found (isShown_activeEditor _) fun editor active => ?_
  refine .convert x y (.inr rfl) within.1 fun i _ isIndex => ?_
  refine .convert x y (.inl rfl) within.2.1 fun j _ isOtherIndex => .does ?_
  exact .intro active isEdited dimensions x y (isIndex _ within.2.2.1) (isOtherIndex _ within.2.2.2)

theorem isNaN_eq_false_of_zeroBased {x : Binary64} {index : Nat} (isIndex : Editor.zeroBased x = .ok index) :
    x.isNaN = false := by
  by_contra isNaN
  rw [Editor.zeroBased_of_isNaN (by simpa using isNaN)] at isIndex
  cases isIndex

theorem concludes_lightPixel (machine : Machine) :
    machine.Concludes machine.LightsPixel (lightPixel.on machine) := by
  rw [lightPixel, on_bind_ok (on_get machine)]
  refine .found (isShown_require _ _) fun _ _ => ?_
  refine .found (isShown_x _) fun inX x => .found (isShown_asReal _) fun col isCol => ?_
  refine .found (isShown_y _) fun inY y => .found (isShown_asReal _) fun row isRow => ?_
  obtain rfl := eq_real_of_asReal isCol
  obtain rfl := eq_real_of_asReal isRow
  refine .check rfl fun within => ?_
  rw [not_or] at within
  refine .convert x y (.inl rfl) within.1 fun i isIndex _ => ?_
  refine .convert x y (.inr rfl) within.2 fun j isOtherIndex _ => ?_
  have shown : (machine.display.setPixel i j).IsShown := ends_ite (fun _ => isShown_fail rfl) fun _ => isShown_ok _
  refine .found shown fun display lights => .does ?_
  have lit := Display.pixel_setPixel lights
  exact .intro x y ⟨isNaN_eq_false_of_zeroBased isIndex, isNaN_eq_false_of_zeroBased isOtherIndex⟩
    ⟨isIndex, isOtherIndex⟩ ⟨(lit 0 0).1, (lit 0 0).2.1⟩ fun i j => (lit i j).2.2

/-- Putting the cursor and lighting a pixel do what the numbers in X and Y ask for, or nothing: no number is beside
its range. A NaN is not refused. Where it passes the comparisons, the conversion to an index underflows, and the
program that runs the machine crashes. -/
theorem storeCursor_lightPixel (machine : Machine) :
    machine.Concludes machine.PutsCursor (storeCursor.on machine) ∧
      machine.Concludes machine.LightsPixel (lightPixel.on machine) :=
  ⟨concludes_storeCursor machine, concludes_lightPixel machine⟩

/-- A new machine with its registers in the editor and two numbers on the stack. -/
def editing (x y : Binary64) : Machine :=
  { initial default with
    editor := some ⟨false, registersName, Variable.globalLevel, 0, 0, []⟩
    stack := ⟨false, [.real x, .real y]⟩ }

/-- The last register can be chosen and none behind it, and a pixel of the last row. A NaN puts the cursor on no row
and lights no pixel: both commands crash. -/
theorem storeCursor_lightPixel_editing :
    (editing 1 25).PutsCursor (storeCursor.on (editing 1 25)).2 ∧
      (storeCursor.on (editing 1 26)).2 = editing 1 26 ∧
      (editing 1 16).LightsPixel (lightPixel.on (editing 1 16)).2 ∧
      storeCursor.on (editing 1 .undefined) = (fail .crash, editing 1 .undefined) ∧
      lightPixel.on (editing 1 .undefined) = (fail .crash, editing 1 .undefined) ∧
      (performing storeCursor (editing 1 .undefined)).hasCrashed = true ∧
      (performing lightPixel (editing 1 .undefined)).hasCrashed = true := by
  have puts : (storeCursor.on (editing 1 25)).1 = .ok () := by decide +kernel
  have behind : (storeCursor.on (editing 1 26)).1 = fail .dimensionError := by decide +kernel
  have lights : (lightPixel.on (editing 1 16)).1 = .ok () := by decide +kernel
  have noRow : (storeCursor.on (editing 1 .undefined)).1 = fail .crash := by decide +kernel
  have noPixel : (lightPixel.on (editing 1 .undefined)).1 = fail .crash := by decide +kernel
  have stays := (storeCursor_lightPixel (editing 1 .undefined)).1.of_error noRow
  have staysDark := (storeCursor_lightPixel (editing 1 .undefined)).2.of_error noPixel
  have crashes : storeCursor.on (editing 1 .undefined) = (fail .crash, editing 1 .undefined) :=
    Prod.ext noRow stays
  have crashesToo : lightPixel.on (editing 1 .undefined) = (fail .crash, editing 1 .undefined) :=
    Prod.ext noPixel staysDark
  refine ⟨(storeCursor_lightPixel (editing 1 25)).1.of_ok puts,
    (storeCursor_lightPixel (editing 1 26)).1.of_error behind,
    (storeCursor_lightPixel (editing 1 16)).2.of_ok lights, crashes, crashesToo, ?_, ?_⟩
  · rw [performing, crashes]
    rfl
  · rw [performing, crashesToo]
    rfl

end Machine

end Keystroke
