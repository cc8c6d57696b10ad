import Mathlib
import Keystroke.Proofs.StateFile.Fields

/-!
# Shared arrays

While the values of a machine are written and read back, each storage of the machine that has been
passed has a new number, and the writer and the reader agree on the indices of the shared ones. An array
is given its new number once it is complete, so one that is still open has none yet; nothing inside it
can be the array itself, which is larger.
-/

namespace Keystroke

namespace Value

/-- What holds of a list if it holds of all its items, and of everything that is no list, holds of every
value. -/
@[elab_as_elim]
theorem item_induction {motive : Value → Prop} (null : motive .null)
    (real : ∀ x, motive (.real x)) (complex : ∀ z, motive (.complex z))
    (text : ∀ bytes, motive (.text bytes))
    (realMatrix : ∀ storage grid, motive (.realMatrix storage grid))
    (complexMatrix : ∀ storage grid, motive (.complexMatrix storage grid))
    (list : ∀ storage items, (∀ item ∈ items, motive item) → motive (.list storage items))
    (value : Value) : motive value :=
  @Value.rec motive (fun items => ∀ item ∈ items, motive item) null real complex text realMatrix
    complexMatrix list (fun _ member => absurd member List.not_mem_nil)
    (fun _ _ first rest _ member =>
      (List.mem_cons.mp member).elim (fun same => same ▸ first) (rest _))
    value

/-! ## Values in storages -/

/-- Whether an array has a storage, and the storage holds this array. -/
def IsStoredIn (heap : Nat → Value) (value : Value) : Prop :=
  ∃ number, value.storage = some number ∧ heap number = value

mutual

/-- What holds of the values of a machine: the storages of their arrays, the lengths of their texts,
and the sizes of their arrays. -/
def IsHeldIn (heap : Nat → Value) : Value → Prop
  | .null | .real _ | .complex _ => True
  | .text bytes => bytes.length ≤ maximalTextLength
  | .realMatrix storage grid =>
      IsStoredIn heap (.realMatrix storage grid) ∧
        grid.rows < Grid.sizeLimit ∧ grid.cols < Grid.sizeLimit ∧
          ∀ bytes, Cell.text bytes ∈ grid.cells.toList → bytes.length ≤ maximalTextLength
  | .complexMatrix storage grid =>
      IsStoredIn heap (.complexMatrix storage grid) ∧
        grid.rows < Grid.sizeLimit ∧ grid.cols < Grid.sizeLimit
  | .list storage items =>
      IsStoredIn heap (.list storage items) ∧ items.length < Grid.sizeLimit ∧ AllHeldIn heap items

/-- What holds of several values of a machine. -/
def AllHeldIn (heap : Nat → Value) : List Value → Prop
  | [] => True
  | value :: rest => IsHeldIn heap value ∧ AllHeldIn heap rest

end

theorem allHeldIn_iff {heap : Nat → Value} {values : List Value} :
    AllHeldIn heap values ↔ ∀ value ∈ values, IsHeldIn heap value := by
  induction values with
  | nil => simp [AllHeldIn]
  | cons value rest ih => simp [AllHeldIn, ih]

/-- The elements of an array, by rows. -/
def elementCount : Value → Nat
  | .realMatrix _ grid => grid.rows
  | .complexMatrix _ grid => grid.rows
  | .list _ items => items.length
  | _ => 0

/-! ## Copies -/

mutual

/-- A value with the same contents, whose arrays have the new numbers of their storages. Which storage
an empty list is in makes no difference to it. -/
inductive IsCopy (number : Nat → Option Nat) : Value → Value → Prop
  | null : IsCopy number .null .null
  | real (x : Binary64) : IsCopy number (.real x) (.real x)
  | complex (z : ComplexNumber) : IsCopy number (.complex z) (.complex z)
  | text (bytes : List UInt8) : IsCopy number (.text bytes) (.text bytes)
  | realMatrix {storage new : Nat} (grid : Grid Cell) (numbered : number storage = some new) :
      IsCopy number (.realMatrix (some storage) grid) (.realMatrix (some new) grid)
  | complexMatrix {storage new : Nat} (grid : Grid ComplexNumber)
      (numbered : number storage = some new) :
      IsCopy number (.complexMatrix (some storage) grid) (.complexMatrix (some new) grid)
  | emptyList (storage new : Storage) : IsCopy number (.list storage []) (.list new [])
  | list {storage new : Nat} {items copies : List Value} (numbered : number storage = some new)
      (copied : AreCopies number items copies) :
      IsCopy number (.list (some storage) items) (.list (some new) copies)

/-- Copies of several values. -/
inductive AreCopies (number : Nat → Option Nat) : List Value → List Value → Prop
  | nil : AreCopies number [] []
  | cons {value copy : Value} {values copies : List Value} (copied : IsCopy number value copy)
      (copiedRest : AreCopies number values copies) :
      AreCopies number (value :: values) (copy :: copies)

end

mutual

theorem IsCopy.mono {number later : Nat → Option Nat}
    (extended : ∀ storage new, number storage = some new → later storage = some new)
    {value copy : Value} (copied : IsCopy number value copy) : IsCopy later value copy := by
  cases copied with
  | null => exact .null
  | real x => exact .real x
  | complex z => exact .complex z
  | text bytes => exact .text bytes
  | realMatrix grid numbered => exact .realMatrix grid (extended _ _ numbered)
  | complexMatrix grid numbered => exact .complexMatrix grid (extended _ _ numbered)
  | emptyList storage new => exact .emptyList storage new
  | list numbered copied => exact .list (extended _ _ numbered) (copied.mono extended)

theorem AreCopies.mono {number later : Nat → Option Nat}
    (extended : ∀ storage new, number storage = some new → later storage = some new)
    {values copies : List Value} (copied : AreCopies number values copies) :
    AreCopies later values copies := by
  cases copied with
  | nil => exact .nil
  | cons copied copiedRest => exact .cons (copied.mono extended) (copiedRest.mono extended)

end

theorem areCopies_iff {number : Nat → Option Nat} {values copies : List Value} :
    AreCopies number values copies ↔ List.Forall₂ (IsCopy number) values copies := by
  constructor
  · intro copied
    induction values generalizing copies with
    | nil =>
        cases copied
        exact .nil
    | cons value rest ih =>
        cases copied with
        | cons copied copiedRest => exact .cons copied (ih copiedRest)
  · intro copied
    induction copied with
    | nil => exact .nil
    | cons copied _ ih => exact .cons copied ih

theorem AreCopies.isEmpty_eq {number : Nat → Option Nat} {values copies : List Value}
    (copied : AreCopies number values copies) : copies.isEmpty = values.isEmpty := by
  cases copied <;> rfl

theorem IsCopy.typeCode_eq {number : Nat → Option Nat} {value copy : Value}
    (copied : IsCopy number value copy) : copy.typeCode = value.typeCode := by
  cases copied <;> rfl

end Value

namespace StateFile

/-! ## Counting holders -/

mutual

theorem suffix_holdersOf (counted : List Nat) (value : Value) :
    counted <:+ holdersOf counted value := by
  cases value with
  | list storage items =>
      cases storage with
      | none => exact suffix_holdersOfAll counted items
      | some storage =>
          simp only [holdersOf]
          split
          · exact List.suffix_cons _ _
          · exact (List.suffix_cons _ _).trans (suffix_holdersOfAll _ items)
  | realMatrix storage grid => cases storage <;> simp [holdersOf]
  | complexMatrix storage grid => cases storage <;> simp [holdersOf]
  | null | real | complex | text => simp [holdersOf]

theorem suffix_holdersOfAll (counted : List Nat) (values : List Value) :
    counted <:+ holdersOfAll counted values := by
  cases values with
  | nil => exact List.suffix_rfl
  | cons value rest =>
      exact (suffix_holdersOf counted value).trans (suffix_holdersOfAll _ rest)

end

theorem mem_sharedStorages {machine : Machine} {storage : Nat} :
    storage ∈ sharedStorages machine ↔
      1 < (holdersOfAll [] (heldValues machine)).count storage := by
  simp only [sharedStorages, List.mem_filter, decide_eq_true_eq, and_iff_right_iff_imp]
  intro several
  exact List.count_pos_iff.mp (by omega)

/-! ## Points of a transfer -/

/-- How far the values of a machine have been written and read back. -/
structure Transfer where
  /-- The storages that were met, as `holdersOf` counts them. -/
  counted : List Nat
  /-- What the writer remembers. -/
  written : List Nat
  /-- What the reader remembers. -/
  input : Input
  /-- The new numbers of the storages whose arrays are complete. -/
  number : Nat → Option Nat

namespace Transfer

/-- What holds at every point of a transfer, with the arrays in their storages and the storages that
several places hold. -/
structure IsSound (heap : Nat → Value) (shared : List Nat) (point : Transfer) : Prop where
  mem_written : ∀ storage, storage ∈ point.written ↔
    storage ∈ point.counted ∧ storage ∈ shared ∧ (heap storage).elementCount ≠ 0
  distinct : point.written.Nodup
  size_eq : point.input.shared.size = point.written.length
  counted_of_number : ∀ storage new, point.number storage = some new → storage ∈ point.counted
  number_lt : ∀ storage new, point.number storage = some new → new < point.input.nextStorage
  injective : ∀ first second new, point.number first = some new → point.number second = some new →
    first = second
  /-- A complete shared array is at its index. -/
  remembered : ∀ (index storage new : Nat), point.written[index]? = some storage →
    point.number storage = some new →
      ∃ copy, point.input.shared[index]? = some (some copy) ∧
        Value.IsCopy point.number (heap storage) copy

/-- Whether an array was begun and is not complete. -/
def IsOpen (heap : Nat → Value) (point : Transfer) (storage : Nat) : Prop :=
  storage ∈ point.counted ∧ (heap storage).elementCount ≠ 0 ∧ point.number storage = none

/-- What holds between a point of a transfer and a later one: the arrays that were begun between them
were completed, and nothing was done to the ones before. -/
structure LeadsTo (heap : Nat → Value) (point later : Transfer) : Prop where
  counted : ∀ storage ∈ point.counted, storage ∈ later.counted
  written : point.written <+: later.written
  number_eq : ∀ storage ∈ point.counted, later.number storage = point.number storage
  completed : ∀ storage, storage ∉ point.counted → ¬ IsOpen heap later storage

variable {heap : Nat → Value} {shared : List Nat} {point between later : Transfer} {storage : Nat}

theorem LeadsTo.refl (heap : Nat → Value) (point : Transfer) : LeadsTo heap point point where
  counted _ member := member
  written := List.prefix_rfl
  number_eq _ _ := rfl
  completed _ new isOpen := new isOpen.1

theorem LeadsTo.trans (first : LeadsTo heap point between) (second : LeadsTo heap between later) :
    LeadsTo heap point later where
  counted storage member := second.counted storage (first.counted storage member)
  written := first.written.trans second.written
  number_eq storage member := by
    rw [second.number_eq storage (first.counted storage member), first.number_eq storage member]
  completed storage new isOpen := by
    by_cases member : storage ∈ between.counted
    · refine first.completed storage new ⟨member, isOpen.2.1, ?_⟩
      rw [← second.number_eq storage member]
      exact isOpen.2.2
    · exact second.completed storage member isOpen

/-- Numbers that were given stay. -/
theorem LeadsTo.number_mono (sound : IsSound heap shared point) (leads : LeadsTo heap point later)
    (storage new : Nat) (numbered : point.number storage = some new) :
    later.number storage = some new := by
  rw [leads.number_eq storage (sound.counted_of_number storage new numbered)]
  exact numbered

/-- What is open later was open before. -/
theorem LeadsTo.isOpen (leads : LeadsTo heap point later) (isOpen : IsOpen heap later storage) :
    IsOpen heap point storage := by
  by_cases member : storage ∈ point.counted
  · exact ⟨member, isOpen.2.1, by rw [← leads.number_eq storage member]; exact isOpen.2.2⟩
  · exact absurd isOpen (leads.completed storage member)

/-! ## One array -/

/-- Meet a storage again. -/
def meet (point : Transfer) (storage : Nat) : Transfer :=
  { point with counted := storage :: point.counted }

/-- Begin an array; a shared one takes the next index. -/
def start (shared : List Nat) (point : Transfer) (storage : Nat) : Transfer :=
  if storage ∈ shared then
    { point with
      counted := storage :: point.counted
      written := point.written ++ [storage]
      input := { point.input with shared := point.input.shared.push none } }
  else point.meet storage

/-- Complete an array that was begun, with its index if it is shared. -/
def finish (shared : List Nat) (point : Transfer) (storage index : Nat) (copy : Value) : Transfer :=
  { point with
    number := Function.update point.number storage (some point.input.nextStorage)
    input := { point.input with
      nextStorage := point.input.nextStorage + 1
      shared :=
        if storage ∈ shared then point.input.shared.setIfInBounds index (some copy)
        else point.input.shared } }

theorem start_counted : (point.start shared storage).counted = storage :: point.counted := by
  unfold start
  split <;> rfl

theorem start_number : (point.start shared storage).number = point.number := by
  unfold start
  split <;> rfl

theorem isOpen_start {other : Nat} (isOpen : IsOpen heap (point.start shared storage) other) :
    other = storage ∨ IsOpen heap point other := by
  obtain ⟨member, full, unnumbered⟩ := isOpen
  rw [start_counted, List.mem_cons] at member
  rw [start_number] at unnumbered
  exact member.imp_right fun member => ⟨member, full, unnumbered⟩

theorem finish_number_self {index : Nat} {copy : Value} :
    (point.finish shared storage index copy).number storage = some point.input.nextStorage :=
  Function.update_self ..

theorem finish_number_of_ne {index other : Nat} {copy : Value} (differs : other ≠ storage) :
    (point.finish shared storage index copy).number other = point.number other :=
  Function.update_of_ne differs ..

theorem IsSound.meet (sound : IsSound heap shared point)
    (known : storage ∈ shared → (heap storage).elementCount ≠ 0 → storage ∈ point.counted) :
    IsSound heap shared (point.meet storage) where
  mem_written other := by
    rw [Transfer.meet, sound.mem_written, List.mem_cons]
    constructor
    · rintro ⟨member, several, full⟩
      exact ⟨.inr member, several, full⟩
    · rintro ⟨rfl | member, several, full⟩
      · exact ⟨known several full, several, full⟩
      · exact ⟨member, several, full⟩
  distinct := sound.distinct
  size_eq := sound.size_eq
  counted_of_number other new numbered :=
    List.mem_cons_of_mem _ (sound.counted_of_number other new numbered)
  number_lt := sound.number_lt
  injective := sound.injective
  remembered := sound.remembered

theorem leadsTo_meet (done : ¬ IsOpen heap (point.meet storage) storage) :
    LeadsTo heap point (point.meet storage) where
  counted _ member := List.mem_cons_of_mem _ member
  written := List.prefix_rfl
  number_eq _ _ := rfl
  completed other new isOpen := by
    rcases List.mem_cons.mp isOpen.1 with rfl | member
    · exact done isOpen
    · exact new member

theorem IsSound.start (sound : IsSound heap shared point) (fresh : storage ∉ point.counted)
    (full : (heap storage).elementCount ≠ 0) :
    IsSound heap shared (point.start shared storage) := by
  unfold Transfer.start
  split
  case isFalse alone => exact sound.meet fun several => absurd several alone
  case isTrue several =>
    have unwritten : storage ∉ point.written := fun member =>
      fresh ((sound.mem_written storage).mp member).1
    refine ⟨?_, ?_, ?_, ?_, sound.number_lt, sound.injective, ?_⟩
    · intro other
      rw [List.mem_append, List.mem_singleton, sound.mem_written, List.mem_cons]
      constructor
      · rintro (⟨member, shared, full⟩ | rfl)
        · exact ⟨.inr member, shared, full⟩
        · exact ⟨.inl rfl, several, full⟩
      · rintro ⟨rfl | member, shared, full⟩
        · exact .inr rfl
        · exact .inl ⟨member, shared, full⟩
    · exact sound.distinct.append (List.nodup_singleton storage) (by simpa using unwritten)
    · simp [sound.size_eq]
    · intro other new numbered
      exact List.mem_cons_of_mem _ (sound.counted_of_number other new numbered)
    · intro index other new place numbered
      -- The new index is not that of a complete array, so the place is one of the old ones.
      have known : other ∈ point.counted := sound.counted_of_number other new numbered
      have inside : index < point.written.length := by
        by_contra outside
        rw [List.getElem?_append_right (by omega)] at place
        have same := List.mem_of_getElem? place
        rw [List.mem_singleton] at same
        exact fresh (same ▸ known)
      rw [List.getElem?_append_left inside] at place
      obtain ⟨copy, found, copied⟩ := sound.remembered index other new place numbered
      refine ⟨copy, ?_, copied⟩
      rw [Array.getElem?_push_lt (by rw [sound.size_eq]; exact inside)]
      exact congrArg some (Array.getElem?_eq_some_iff.mp found).2

theorem IsSound.finish {index : Nat} {copy : Value} (sound : IsSound heap shared point)
    (isOpen : IsOpen heap point storage)
    (place : storage ∈ shared → point.written[index]? = some storage)
    (copied : Value.IsCopy (point.finish shared storage index copy).number (heap storage) copy) :
    IsSound heap shared (point.finish shared storage index copy) where
  mem_written := sound.mem_written
  distinct := sound.distinct
  size_eq := by
    simp only [Transfer.finish]
    split <;> simp [sound.size_eq]
  counted_of_number other new numbered := by
    by_cases same : other = storage
    · exact same ▸ isOpen.1
    · rw [finish_number_of_ne same] at numbered
      exact sound.counted_of_number other new numbered
  number_lt other new numbered := by
    change new < point.input.nextStorage + 1
    by_cases same : other = storage
    · rw [same, finish_number_self, Option.some.injEq] at numbered
      omega
    · rw [finish_number_of_ne same] at numbered
      have := sound.number_lt other new numbered
      omega
  injective first second new numbered numberedToo := by
    by_cases firstSame : first = storage <;> by_cases secondSame : second = storage
    · rw [firstSame, secondSame]
    · rw [firstSame, finish_number_self, Option.some.injEq] at numbered
      rw [finish_number_of_ne secondSame] at numberedToo
      have := sound.number_lt second new numberedToo
      omega
    · rw [finish_number_of_ne firstSame] at numbered
      rw [secondSame, finish_number_self, Option.some.injEq] at numberedToo
      have := sound.number_lt first new numbered
      omega
    · rw [finish_number_of_ne firstSame] at numbered
      rw [finish_number_of_ne secondSame] at numberedToo
      exact sound.injective first second new numbered numberedToo
  remembered other otherStorage new otherPlace numbered := by
    by_cases same : otherStorage = storage
    · subst same
      have several : otherStorage ∈ shared :=
        ((sound.mem_written otherStorage).mp (List.mem_of_getElem? otherPlace)).2.1
      have sameIndex : other = index :=
        (List.getElem?_inj (List.getElem?_eq_some_iff.mp otherPlace).1 sound.distinct).mp
          (otherPlace.trans (place several).symm)
      have inside : index < point.input.shared.size := by
        rw [sound.size_eq]
        exact (List.getElem?_eq_some_iff.mp (place several)).1
      refine ⟨copy, ?_, copied⟩
      simp [Transfer.finish, several, sameIndex, inside]
    · have numberedBefore := numbered
      rw [finish_number_of_ne same] at numberedBefore
      obtain ⟨otherCopy, found, otherCopied⟩ :=
        sound.remembered other otherStorage new otherPlace numberedBefore
      refine ⟨otherCopy, ?_, otherCopied.mono ?_⟩
      · simp only [Transfer.finish]
        split
        case isFalse => exact found
        case isTrue several =>
          have differs : index ≠ other := by
            rintro rfl
            exact same (Option.some.inj (otherPlace.symm.trans (place several)))
          rw [Array.getElem?_setIfInBounds_ne differs]
          exact found
      · intro kept keptNew keptNumbered
        have keptDiffers : kept ≠ storage := by
          rintro rfl
          rw [isOpen.2.2] at keptNumbered
          contradiction
        rw [finish_number_of_ne keptDiffers]
        exact keptNumbered

/-- An array that is begun, filled and completed. -/
theorem LeadsTo.finish {index : Nat} {copy : Value} (fresh : storage ∉ point.counted)
    (leads : LeadsTo heap (point.start shared storage) between) :
    LeadsTo heap point (between.finish shared storage index copy) where
  counted other member := leads.counted other (by
    rw [start_counted]
    exact List.mem_cons_of_mem _ member)
  written := by
    refine .trans ?_ leads.written
    unfold start
    split
    · exact List.prefix_append _ _
    · exact List.prefix_rfl
  number_eq other member := by
    have differs : other ≠ storage := fun same => fresh (same ▸ member)
    rw [finish_number_of_ne differs, leads.number_eq other, start_number]
    rw [start_counted]
    exact List.mem_cons_of_mem _ member
  completed other new isOpen := by
    obtain ⟨member, full, unnumbered⟩ := isOpen
    have differs : other ≠ storage := by
      rintro rfl
      rw [finish_number_self] at unnumbered
      contradiction
    rw [finish_number_of_ne differs] at unnumbered
    refine leads.completed other ?_ ⟨member, full, unnumbered⟩
    rw [start_counted, List.mem_cons]
    exact not_or_intro differs new

end Transfer

end StateFile

end Keystroke
