import Mathlib
import Keystroke.Machine.Numeric
import Keystroke.Proofs.Calls.Outcomes

/-!
# Values that keep to free storages

No operation on values brings in a storage that its operands do not have. Where there is memory for no more
elements than fit a state file, none makes a matrix with more.
-/

namespace Keystroke

open Outcome

namespace Grid

/-- Dimensions that a state file has room for: a word with a sign holds the count of the columns. -/
abbrev IsNarrow (_rows cols : Nat) : Prop := cols < sizeLimit

/-- Dimensions with so few elements that a state file has room for them, in whatever rows they are put. -/
abbrev IsSmall (rows cols : Nat) : Prop := rows * cols < sizeLimit

theorem isNarrow_of_isSmall (rows cols : Nat) (positive : 0 < rows) (small : IsSmall rows cols) :
    IsNarrow rows cols :=
  (Nat.le_mul_of_pos_left cols positive).trans_lt small

end Grid

namespace Value

mutual

/-- All arrays in a value have free storages, or none yet, and its matrices have only such rows and columns. -/
def Within (shape : Nat → Nat → Prop) (free : Nat → Prop) : Value → Prop
  | .realMatrix storage grid => (∀ number ∈ storage, free number) ∧ shape grid.rows grid.cols
  | .complexMatrix storage grid => (∀ number ∈ storage, free number) ∧ shape grid.rows grid.cols
  | .list storage items => (∀ number ∈ storage, free number) ∧ AllWithin shape free items
  | _ => True

/-- All values of a list are within. -/
def AllWithin (shape : Nat → Nat → Prop) (free : Nat → Prop) : List Value → Prop
  | [] => True
  | value :: rest => Within shape free value ∧ AllWithin shape free rest

end

section

variable {shape wider : Nat → Nat → Prop} {free freer : Nat → Prop}

theorem allWithin_iff {values : List Value} :
    AllWithin shape free values ↔ ∀ value ∈ values, value.Within shape free := by
  induction values with
  | nil => simp [AllWithin]
  | cons value rest ih => simp [AllWithin, ih]

mutual

theorem Within.mono (widen : ∀ rows cols, 0 < rows → shape rows cols → wider rows cols)
    (weaken : ∀ number, free number → freer number) :
    (value : Value) → value.Within shape free → value.Within wider freer
  | .realMatrix _ grid, ⟨place, small⟩ =>
    ⟨fun number given => weaken number (place number given), widen _ _ grid.rows_pos small⟩
  | .complexMatrix _ grid, ⟨place, small⟩ =>
    ⟨fun number given => weaken number (place number given), widen _ _ grid.rows_pos small⟩
  | .list _ items, ⟨place, within⟩ =>
    ⟨fun number given => weaken number (place number given), AllWithin.mono widen weaken items within⟩
  | .null, _ | .real _, _ | .complex _, _ | .text _, _ => trivial

theorem AllWithin.mono (widen : ∀ rows cols, 0 < rows → shape rows cols → wider rows cols)
    (weaken : ∀ number, free number → freer number) :
    (values : List Value) → AllWithin shape free values → AllWithin wider freer values
  | [], _ => trivial
  | value :: rest, ⟨first, others⟩ =>
    ⟨Within.mono widen weaken value first, AllWithin.mono widen weaken rest others⟩

end

theorem Within.imp (weaken : ∀ number, free number → freer number) {value : Value}
    (within : value.Within shape free) : value.Within shape freer :=
  within.mono (fun _ _ _ same => same) weaken value

theorem AllWithin.imp (weaken : ∀ number, free number → freer number) {values : List Value}
    (within : AllWithin shape free values) : AllWithin shape freer values :=
  within.mono (fun _ _ _ same => same) weaken values

end

/-- The elements of the matrices in a value are so few that their counts fit a state file. -/
abbrev Fits (free : Nat → Prop) (value : Value) : Prop := value.Within Grid.IsSmall free

/-- All values of a list fit. -/
abbrev AllFit (free : Nat → Prop) (values : List Value) : Prop := AllWithin Grid.IsSmall free values

variable {free : Nat → Prop}

theorem allFit_iff {values : List Value} :
    AllFit free values ↔ ∀ value ∈ values, value.Fits free :=
  allWithin_iff

@[simp]
theorem fits_null : Fits free .null :=
  trivial

@[simp]
theorem fits_real (x : Binary64) : Fits free (.real x) :=
  trivial

@[simp]
theorem fits_complex (z : ComplexNumber) : Fits free (.complex z) :=
  trivial

@[simp]
theorem fits_text (bytes : List UInt8) : Fits free (.text bytes) :=
  trivial

@[simp]
theorem within_zero {shape : Nat → Nat → Prop} : zero.Within shape free :=
  trivial

@[simp]
theorem fits_ofCell (cell : Cell) : Fits free (.ofCell cell) := by
  cases cell <;> exact trivial

section

variable {shape : Nat → Nat → Prop}

@[simp]
theorem within_newRealMatrix {grid : Grid Cell} :
    (newRealMatrix grid).Within shape free ↔ shape grid.rows grid.cols := by
  simp [newRealMatrix, Within]

@[simp]
theorem within_newComplexMatrix {grid : Grid ComplexNumber} :
    (newComplexMatrix grid).Within shape free ↔ shape grid.rows grid.cols := by
  simp [newComplexMatrix, Within]

end

end Value

/-! ## Grids -/

namespace Grid

variable {α β γ : Type}

theorem ends_mapM {f : α → Outcome β} (each : ∀ cell, IsOrdinary (f cell)) (grid : Grid α) :
    Ends (fun result => result.rows = grid.rows ∧ result.cols = grid.cols) (grid.mapM f) :=
  (ordinary_mapM_vector each).bind fun _ _ => ⟨rfl, rfl⟩

theorem ends_zipM {f : α → β → Outcome γ} (each : ∀ x y, IsOrdinary (f x y)) (left : Grid α)
    (right : Grid β) :
    Ends (fun result => result.rows = left.rows ∧ result.cols = left.cols) (left.zipM f right) := by
  rw [zipM]
  split
  · have pairs : ∀ pair : α × β, IsOrdinary (f pair.1 pair.2) := fun pair => each pair.1 pair.2
    exact (ordinary_mapM_vector pairs).bind fun _ _ => ⟨rfl, rfl⟩
  · exact ends_fail rfl

theorem ends_set (grid : Grid α) (i j : Nat) (value : α) :
    Ends (fun result => result.rows = grid.rows ∧ result.cols = grid.cols) (grid.set i j value) := by
  rw [set]
  split
  · exact ⟨rfl, rfl⟩
  · exact ends_fail rfl

section

variable {memory : Nat} (room : memory ≤ sizeLimit) (rows cols : Nat)

include room

theorem ends_filled (value : α) :
    Ends (fun result => IsSmall result.rows result.cols) (filled memory rows cols value) := by
  rw [filled]
  split
  · exact ends_ite (fun _ => ends_fail rfl) fun small => (not_le.mp small).trans_le room
  · exact ends_fail rfl

/-- Fewer cells than there were are always admitted. -/
theorem ends_resize {grid : Grid α} (small : IsSmall grid.rows grid.cols) (filler : α) :
    Ends (fun result => IsSmall result.rows result.cols) (grid.resize memory rows cols filler) := by
  rw [resize]
  split
  · refine ends_ite (fun _ => ends_fail rfl) fun admitted => ?_
    rw [size] at admitted
    show rows * cols < sizeLimit
    omega
  · exact ends_fail rfl

theorem ends_checkDimensions : Ends (fun _ => IsSmall rows cols) (checkDimensions memory rows cols) := by
  refine ends_ite (fun _ => ends_fail rfl) fun _ => ?_
  exact ends_ite (fun _ => ends_fail rfl) fun small => (not_le.mp small).trans_le room

end

theorem ends_ofCells (rows cols : Nat) (cells : Array α) :
    Ends (fun result => result.rows = rows ∧ result.cols = cols) (ofCells rows cols cells) := by
  rw [ofCells]
  split
  · exact ⟨rfl, rfl⟩
  · exact ends_fail rfl

end Grid

/-! ## Numbers -/

@[simp]
theorem Binary64.ordinary_checked (x : Binary64) : IsOrdinary x.checked :=
  ends_ite (fun _ => ends_fail rfl) fun _ => ends_ite (fun _ => ends_fail rfl) fun _ => trivial

@[simp]
theorem ComplexNumber.ordinary_checked (z : ComplexNumber) : IsOrdinary z.checked :=
  (Binary64.ordinary_checked _).bind fun _ _ => (Binary64.ordinary_checked _).bind fun _ _ => trivial

@[simp]
theorem ComplexNumber.ordinary_divide (z w : ComplexNumber) : IsOrdinary (z.divide w) :=
  ends_ite (fun _ => ends_fail rfl) fun _ => trivial

@[simp]
theorem ComplexNumber.ordinary_ln (z : ComplexNumber) : IsOrdinary z.ln :=
  ends_ite (fun _ => ends_fail rfl) fun _ => trivial

theorem Cell.ordinary_asReal (cell : Cell) : IsOrdinary cell.asReal := by
  cases cell
  · trivial
  · exact ends_fail rfl

namespace Value

theorem ordinary_asReal (value : Value) : IsOrdinary value.asReal := by
  cases value <;> trivial

variable {free : Nat → Prop}

/-! ## Operations -/

theorem ends_mapReal {f : Binary64 → Outcome Binary64} (ordinary : ∀ x, IsOrdinary (f x))
    {grid : Grid Cell} (small : Grid.IsSmall grid.rows grid.cols) : Ends (Fits free) (mapReal f grid) := by
  refine (Grid.ends_mapM (fun cell => ?_) grid).bind fun result same => ?_
  · exact cell.ordinary_asReal.bind fun x _ => (ordinary x).bind fun y _ =>
      y.ordinary_checked.bind fun _ _ => trivial
  · simpa [same] using small

theorem ends_mapComplex {f : ComplexNumber → Outcome ComplexNumber}
    (ordinary : ∀ z, IsOrdinary (f z)) {grid : Grid ComplexNumber}
    (small : Grid.IsSmall grid.rows grid.cols) : Ends (Fits free) (mapComplex f grid) := by
  refine (Grid.ends_mapM (fun element => ?_) grid).bind fun result same => ?_
  · exact (ordinary element).bind fun z _ => z.ordinary_checked
  · simpa [same] using small

theorem ends_zipReal {f : Binary64 → Binary64 → Outcome Binary64}
    (ordinary : ∀ x y, IsOrdinary (f x y)) {left : Grid Cell} (right : Grid Cell)
    (small : Grid.IsSmall left.rows left.cols) : Ends (Fits free) (zipReal f left right) := by
  refine (Grid.ends_zipM (fun x y => ?_) left right).bind fun result same => ?_
  · exact x.ordinary_asReal.bind fun x _ => y.ordinary_asReal.bind fun y _ =>
      (ordinary x y).bind fun z _ => z.ordinary_checked.bind fun _ _ => trivial
  · simpa [same] using small

theorem ends_real {outcome : Outcome Binary64} (ordinary : IsOrdinary outcome) :
    Ends (Fits free) (do return .real (← (← outcome).checked)) :=
  ordinary.bind fun x _ => x.ordinary_checked.bind fun _ _ => trivial

theorem ends_complex {outcome : Outcome ComplexNumber} (ordinary : IsOrdinary outcome) :
    Ends (Fits free) (do return .complex (← (← outcome).checked)) :=
  ordinary.bind fun z _ => z.ordinary_checked.bind fun _ _ => trivial

variable {onReals : Binary64 → Binary64 → Outcome Binary64}
  {onComplexes : ComplexNumber → ComplexNumber → Outcome ComplexNumber}

theorem ends_elementwise (reals : ∀ x y, IsOrdinary (onReals x y))
    (complexes : ∀ z w, IsOrdinary (onComplexes z w)) {left right : Value} (fits : left.Fits free)
    (fitsRight : right.Fits free) :
    Ends (Fits free) (elementwise onReals onComplexes left right) := by
  cases left <;> cases right <;>
    first
    | exact ends_fail rfl
    | exact ends_real (reals _ _)
    | exact ends_complex (complexes _ _)
    | exact ends_mapReal (fun _ => reals _ _) fits.2
    | exact ends_mapReal (fun _ => reals _ _) fitsRight.2
    | exact ends_zipReal reals _ fits.2
    | exact ends_mapComplex (fun _ => complexes _ _) fits.2
    | exact ends_mapComplex (fun _ => complexes _ _) fitsRight.2

theorem ends_add {left right : Value} (fits : left.Fits free) (fitsRight : right.Fits free) :
    Ends (Fits free) (left.add right) := by
  unfold add
  refine ends_elementwise ?_ ?_ fits fitsRight <;> exact fun _ _ => trivial

theorem ends_subtract {left right : Value} (fits : left.Fits free) (fitsRight : right.Fits free) :
    Ends (Fits free) (left.subtract right) := by
  unfold subtract
  refine ends_elementwise ?_ ?_ fits fitsRight <;> exact fun _ _ => trivial

theorem ordinary_rowTimesColumn (left right : Grid Cell) (i j : Nat) :
    IsOrdinary (rowTimesColumn left right i j) := by
  refine ordinary_foldlM fun sum k => ?_
  split
  · exact (Cell.ordinary_asReal _).bind fun _ _ => (Cell.ordinary_asReal _).bind fun _ _ => trivial
  · exact ends_fail rfl

theorem ends_matrixProduct {memory : Nat} (room : memory ≤ Grid.sizeLimit) (left right : Grid Cell) :
    Ends (Fits free) (matrixProduct memory left right) := by
  refine ends_ite (fun _ => ends_fail rfl) fun _ => ?_
  refine (Grid.ends_checkDimensions room _ _).bind fun _ small => ?_
  have cells : ∀ place, IsOrdinary (do
      let sum ← rowTimesColumn left right (place / right.cols) (place % right.cols)
      return Cell.number (← sum.checked)) := fun place =>
    (ordinary_rowTimesColumn _ _ _ _).bind fun sum _ => sum.ordinary_checked.bind fun _ _ => trivial
  refine (ends_mapM fun place _ => cells place).bind fun _ _ => ?_
  refine (Grid.ends_ofCells _ _ _).bind fun grid same => ?_
  simpa [same] using small

theorem ends_multiply {memory : Nat} (room : memory ≤ Grid.sizeLimit) {left right : Value}
    (fits : left.Fits free) (fitsRight : right.Fits free) : Ends (Fits free) (left.multiply memory right) := by
  unfold multiply
  split
  · exact ends_matrixProduct room _ _
  · refine ends_elementwise ?_ ?_ fits fitsRight <;> exact fun _ _ => trivial

theorem ends_divide {left right : Value} (fits : left.Fits free) (fitsRight : right.Fits free) :
    Ends (Fits free) (left.divide right) := by
  refine ends_ite (fun _ => ends_fail rfl) fun _ => ?_
  refine ends_elementwise (fun x y => ?_) (fun z w => z.ordinary_divide w) fits fitsRight
  exact ends_ite (fun _ => ends_fail rfl) fun _ => trivial

theorem ordinary_complexPower (base exponent : ComplexNumber) :
    IsOrdinary (complexPower base exponent) := by
  unfold complexPower
  exact ends_ite (fun _ => trivial) fun _ => base.ordinary_ln.bind fun _ _ => trivial

theorem ends_power {base exponent : Value} (fits : base.Fits free)
    (fitsExponent : exponent.Fits free) : Ends (Fits free) (base.power exponent) := by
  unfold power
  split
  · refine ends_ite (fun _ => ends_fail rfl) fun _ => ends_ite (fun _ => ?_) fun _ => ?_
    · exact (ComplexNumber.ordinary_ln _).bind fun _ _ =>
        (ComplexNumber.ordinary_checked _).bind fun _ _ => trivial
    · exact (Binary64.ordinary_checked _).bind fun _ _ => trivial
  · refine ends_ite (fun _ => ends_fail rfl) fun _ => ?_
    exact ends_elementwise (fun _ _ => by trivial) ordinary_complexPower fits fitsExponent

theorem ends_onReals {f : Binary64 → Binary64 → Outcome Binary64}
    (ordinary : ∀ x y, IsOrdinary (f x y)) (left right : Value) :
    Ends (Fits free) (Value.onReals f left right) :=
  left.ordinary_asReal.bind fun x _ => right.ordinary_asReal.bind fun y _ => ends_real (ordinary x y)

/-! ## Functions -/

theorem ends_onReal {f : Binary64 → Outcome Binary64} (ordinary : ∀ x, IsOrdinary (f x))
    {value : Value} (fits : value.Fits free) : Ends (Fits free) (onReal f value) := by
  cases value <;>
    first
    | exact ends_fail rfl
    | exact ends_real (ordinary _)
    | exact ends_mapReal ordinary fits.2

theorem ordinary_whereDefined (isDefined : Binary64 → Bool) (f : Binary64 → Binary64) (x : Binary64) :
    IsOrdinary (whereDefined isDefined f x) :=
  ends_ite (fun _ => trivial) fun _ => ends_fail rfl

theorem ends_negate {value : Value} (fits : value.Fits free) : Ends (Fits free) value.negate := by
  unfold negate
  split
  · trivial
  · exact within_newComplexMatrix.mpr fits.2
  · exact ends_onReal (fun x => by trivial) fits

theorem ends_sqrt {value : Value} (fits : value.Fits free) : Ends (Fits free) value.sqrt := by
  unfold sqrt
  split
  · exact (ComplexNumber.ordinary_ln _).bind fun _ _ =>
      (ComplexNumber.ordinary_checked _).bind fun _ _ => trivial
  · exact ends_onReal (ordinary_whereDefined _ _) fits

theorem ends_ln {value : Value} (fits : value.Fits free) : Ends (Fits free) value.ln := by
  unfold ln
  split
  · exact ends_complex (ComplexNumber.ordinary_ln _)
  · exact ends_onReal (ordinary_whereDefined _ _) fits

theorem ends_exp {value : Value} (fits : value.Fits free) : Ends (Fits free) value.exp := by
  unfold exp
  split
  · exact (ComplexNumber.ordinary_checked _).bind fun _ _ => trivial
  · exact ends_onReal (fun x => by trivial) fits

theorem ends_reciprocal {value : Value} (fits : value.Fits free) :
    Ends (Fits free) value.reciprocal := by
  unfold reciprocal
  split
  · exact (ComplexNumber.ordinary_divide _ _).bind fun _ _ => trivial
  · exact ends_onReal (fun x => ends_ite (fun _ => ends_fail rfl) fun _ => by trivial) fits

theorem ends_absolute {value : Value} (fits : value.Fits free) :
    Ends (Fits free) value.absolute := by
  unfold absolute
  split
  · exact (Binary64.ordinary_checked _).bind fun _ _ => trivial
  · exact ends_onReal (fun x => by trivial) fits

theorem ends_sign {value : Value} (fits : value.Fits free) : Ends (Fits free) value.sign := by
  unfold sign
  split
  · trivial
  · trivial
  · exact ends_onReal (fun x => by trivial) fits

theorem ends_tan {mode : AngleMode} {value : Value} (fits : value.Fits free) :
    Ends (Fits free) (value.tan mode) := by
  unfold tan
  exact ends_onReal (fun x => ends_ite (fun _ => ends_fail rfl) fun _ => by trivial) fits

end Value

/-! ## The tables of numeric commands -/

namespace Machine

open Value

variable {free : Nat → Prop}

theorem ends_functionOfX {memory : Nat} (room : memory ≤ Grid.sizeLimit) {flags : Flags} {opcode : Opcode}
    {f : Value → Outcome Value} (found : functionOfX? memory flags opcode = some f) {value : Value}
    (fits : value.Fits free) :
    Ends (Fits free) (f value) := by
  have everywhere (g : Binary64 → Binary64) : Ends (Fits free) (total g value) :=
    ends_onReal (fun x => by trivial) fits
  have whereDefined (isDefined : Binary64 → Bool) (g : Binary64 → Binary64) :
      Ends (Fits free) (onReal (Value.whereDefined isDefined g) value) :=
    ends_onReal (ordinary_whereDefined isDefined g) fits
  unfold functionOfX? at found
  split at found <;> cases found
  · exact ends_negate fits
  · exact ends_reciprocal fits
  · exact ends_sqrt fits
  · exact ends_multiply room fits fits
  · exact ends_ln fits
  · exact whereDefined _ _
  · exact ends_exp fits
  · exact ends_power (fits_real 10) fits
  · exact everywhere _
  · exact whereDefined _ _
  · exact everywhere _
  · exact everywhere _
  · exact ends_tan fits
  · exact whereDefined _ _
  · exact whereDefined _ _
  · exact everywhere _
  · exact everywhere _
  · exact everywhere _
  · exact everywhere _
  · exact everywhere _
  · exact whereDefined _ _
  · exact whereDefined _ _
  · exact ends_absolute fits
  · exact ends_sign fits
  · exact everywhere _
  · exact everywhere _
  · exact everywhere _
  · exact whereDefined _ _
  · exact whereDefined _ _
  · exact everywhere _
  · exact everywhere _
  · exact everywhere _
  · exact everywhere _

theorem ordinary_count (x : Binary64) : IsOrdinary x.count? :=
  ends_ite (fun _ => ends_fail rfl) fun _ => trivial

theorem ordinary_combinations (n k : Binary64) : IsOrdinary (Binary64.combinations n k) :=
  (ordinary_count n).bind fun _ _ => (ordinary_count k).bind fun _ _ =>
    ends_ite (fun _ => ends_fail rfl) fun _ => Binary64.ordinary_checked _

theorem ordinary_permutations (n k : Binary64) : IsOrdinary (Binary64.permutations n k) :=
  (ordinary_count n).bind fun _ _ => (ordinary_count k).bind fun _ _ =>
    ends_ite (fun _ => ends_fail rfl) fun _ => Binary64.ordinary_checked _

theorem ends_operationOnYX {memory : Nat} (room : memory ≤ Grid.sizeLimit) {opcode : Opcode}
    {f : Value → Value → Outcome Value} (found : operationOnYX? memory opcode = some f) {y x : Value}
    (fitsY : y.Fits free)
    (fitsX : x.Fits free) : Ends (Fits free) (f y x) := by
  have realOnly : ∀ g : Binary64 → Binary64 → Binary64, Ends (Fits free) (totalOfTwo g y x) :=
    fun g => ends_onReals (fun _ _ => by trivial) y x
  unfold operationOnYX? at found
  split at found <;> cases found
  · exact ends_add fitsY fitsX
  · exact ends_subtract fitsY fitsX
  · exact ends_multiply room fitsY fitsX
  · exact ends_divide fitsY fitsX
  · exact ends_power fitsY fitsX
  · exact realOnly _
  · exact ends_onReals ordinary_combinations y x
  · exact ends_onReals ordinary_permutations y x
  · exact realOnly _
  · exact realOnly _
  · exact realOnly _
  · exact realOnly _

theorem ordinary_percentage {opcode : Opcode} {f : Binary64 → Binary64 → Outcome Binary64}
    (found : percentage? opcode = some f) (y x : Binary64) : IsOrdinary (f y x) := by
  unfold percentage? at found
  split at found <;> cases found
  · trivial
  · exact ends_ite (fun _ => ends_fail rfl) fun _ => trivial

theorem ends_storeOperation {memory : Nat} (room : memory ≤ Grid.sizeLimit) {opcode : Opcode}
    {f : Value → Value → Outcome Value} (found : storeOperation? memory opcode = some f) {y x : Value}
    (fitsY : y.Fits free)
    (fitsX : x.Fits free) : Ends (Fits free) (f y x) := by
  unfold storeOperation? at found
  split at found <;> cases found
  · exact ends_add fitsY fitsX
  · exact ends_subtract fitsY fitsX
  · exact ends_multiply room fitsY fitsX
  · exact ends_divide fitsY fitsX

theorem ends_recallOperation {memory : Nat} (room : memory ≤ Grid.sizeLimit) {opcode : Opcode}
    {f : Value → Value → Outcome Value} (found : recallOperation? memory opcode = some f) {y x : Value}
    (fitsY : y.Fits free)
    (fitsX : x.Fits free) : Ends (Fits free) (f y x) := by
  unfold recallOperation? at found
  split at found <;> cases found
  · exact ends_add fitsY fitsX
  · exact ends_subtract fitsY fitsX
  · exact ends_multiply room fitsY fitsX
  · exact ends_divide fitsY fitsX

end Machine

end Keystroke
