import Mathlib
import Keystroke.Proofs.StateFile.Layouts
import Keystroke.Proofs.StateFile.Values

/-!
# Values in older layouts

Such a layout holds every array in full wherever it occurs, so all arrays come back in storages of their
own. The induction is on the values, as it is for the newest layout; nothing has to be remembered between
two of them but the next storage.
-/

namespace Keystroke.StateFile

open Reader

/-! ## New storages -/

/-- These storages were given out between two numbers, each of them once. -/
structure AreNew (first next : Nat) (storages : List Nat) : Prop where
  le : first ≤ next
  distinct : storages.Nodup
  given : ∀ storage ∈ storages, first ≤ storage ∧ storage < next

theorem AreNew.nil (first : Nat) : AreNew first first [] where
  le := Nat.le_refl first
  distinct := List.nodup_nil
  given _ member := absurd member List.not_mem_nil

theorem AreNew.append {first between next : Nat} {storages others : List Nat}
    (new : AreNew first between storages) (newer : AreNew between next others) :
    AreNew first next (storages ++ others) where
  le := new.le.trans newer.le
  distinct := by
    refine new.distinct.append newer.distinct fun storage member memberOthers => ?_
    have below := (new.given storage member).2
    have above := (newer.given storage memberOthers).1
    omega
  given storage member := by
    have le := new.le
    have leNext := newer.le
    rcases List.mem_append.mp member with member | member
    · have := new.given storage member
      omega
    · have := newer.given storage member
      omega

/-- An array is given its storage after what is in it. -/
theorem AreNew.succ {first next : Nat} {storages : List Nat} (new : AreNew first next storages) :
    AreNew first (next + 1) (next :: storages) where
  le := Nat.le_succ_of_le new.le
  distinct := List.nodup_cons.mpr
    ⟨fun member => Nat.lt_irrefl _ (new.given next member).2, new.distinct⟩
  given storage member := by
    have le := new.le
    rcases List.mem_cons.mp member with rfl | member
    · omega
    · have := new.given storage member
      omega

/-! ## Migration -/

section

variable {α β γ δ : Type}

/-- What is written, whatever was written before, is read back as what its layout keeps, and the arrays in
it are given storages of their own. Arrays may be nested as deep as there are bytes. -/
def Migrates (erased : α → γ) (storages : α → List Nat) (write : Writer Bytes)
    (read : Nat → Reader α) (kept : γ) : Prop :=
  ∃ bytes, (∀ written, write.run written = .ok (bytes, written)) ∧
    ∀ input : Input, ∃ result next,
      (∀ depth, bytes.length < depth →
        Takes (read depth) bytes input { input with nextStorage := next } result) ∧
      erased result = kept ∧ AreNew input.nextStorage next (storages result)

variable {erased : α → γ} {storages : α → List Nat}

/-- A field in which there is no array. -/
theorem Keeps.migrates {field : Outcome Bytes} {reader : Reader α} {value : α} {kept : γ}
    (keeps : Keeps field reader value) (same : erased value = kept) (none : storages value = []) :
    Migrates erased storages (liftM field) (fun _ => reader) kept := by
  obtain ⟨bytes, written, reads⟩ := keeps
  refine ⟨bytes, fun _ => ?_, fun input =>
    ⟨value, input.nextStorage, fun _ _ => reads input, same, ?_⟩⟩
  · rw [written]
    rfl
  · rw [none]
    exact .nil _

theorem migrates_many_go {write : β → Writer Bytes} {read : Nat → Reader α} {kept : β → γ}
    (items : List β)
    (migrates : ∀ item ∈ items, Migrates erased storages (write item) read (kept item)) :
    ∃ bytes, (∀ written, (List.flatten <$> items.mapM write).run written = .ok (bytes, written)) ∧
      ∀ (input : Input) (reversed : List α), ∃ results next,
        (∀ depth, bytes.length < depth →
          Takes (many.go (read depth) items.length reversed) bytes input
            { input with nextStorage := next } (reversed.reverse ++ results)) ∧
        results.map erased = items.map kept ∧
        AreNew input.nextStorage next (results.flatMap storages) := by
  induction items with
  | nil =>
      refine ⟨[], fun _ => rfl, fun input reversed =>
        ⟨[], input.nextStorage, fun _ _ => ?_, rfl, .nil _⟩⟩
      simpa [many.go] using Takes.pure reversed.reverse input
  | cons item items ih =>
      obtain ⟨first, written, takes⟩ := migrates item List.mem_cons_self
      obtain ⟨others, writtenOthers, takesOthers⟩ :=
        ih fun other member => migrates other (List.mem_cons_of_mem _ member)
      refine ⟨first ++ others, fun before => ?_, fun input reversed => ?_⟩
      · rw [flatten_mapM_cons, StateT.run_bind, written]
        change (List.flatten <$> items.mapM write >>= fun others => pure (first ++ others)).run
          before = _
        rw [StateT.run_bind, writtenOthers]
        rfl
      · obtain ⟨result, between, taken, isKept, new⟩ := takes input
        obtain ⟨results, next, takenOthers, areKept, newer⟩ :=
          takesOthers { input with nextStorage := between } (result :: reversed)
        rw [List.reverse_cons, List.append_assoc] at takenOthers
        refine ⟨result :: results, next, fun depth deep => ?_, ?_, ?_⟩
        · rw [List.length_append] at deep
          exact (taken depth (by omega)).bind (takenOthers depth (by omega))
        · rw [List.map_cons, List.map_cons, isKept, areKept]
        · rw [List.flatMap_cons]
          exact new.append newer

theorem migrates_many {write : β → Writer Bytes} {read : Nat → Reader α} {kept : β → γ}
    (items : List β)
    (migrates : ∀ item ∈ items, Migrates erased storages (write item) read (kept item)) :
    Migrates (List.map erased) (List.flatMap storages) (List.flatten <$> items.mapM write)
      (fun depth => many (read depth) items.length) (items.map kept) := by
  obtain ⟨bytes, written, takes⟩ := migrates_many_go items migrates
  exact ⟨bytes, written, fun input => takes input []⟩

/-! ### Arrays -/

variable {version : Nat} {shared : List Nat}

theorem run_arrayHead_older (old : holdsSharing version = false) {count : Nat}
    (fits : count < Grid.sizeLimit) (place : Storage) (written : List Nat) :
    (StateFile.arrayHead ⟨version, shared⟩ place count).run written =
      .ok ((word32Field count, true), written) := by
  have admitted : ¬ 0x80000000 ≤ count := Nat.not_le.mpr fits
  simp [StateFile.arrayHead, admitted, old]
  rfl

theorem reads_arrayHead_older (old : holdsSharing version = false) {count : Nat}
    (fits : count < Grid.sizeLimit) :
    Reads (Reader.arrayHead version) (word32Field count) (.contents count false) := by
  refine (reads_integer_word fits).then ?_
  rw [old]
  exact .require_bind (decide_eq_true (Int.natCast_nonneg count)) (Reads.pure _)

/-- An array is written with its contents wherever it occurs, and gets a storage of its own. -/
theorem migrates_array (old : holdsSharing version = false) {value kept : Value} {contents : γ}
    {count : Nat} (fits : count < Grid.sizeLimit) {write : Writer Bytes}
    {read : Nat → Nat → Reader α} {make : α → Value}
    (stored : ∀ result new, ((make result).storedAt (some new)).storages = new :: storages result)
    (becomes : ∀ result new, erased result = contents →
      ((make result).storedAt (some new)).inLayout currentVersion = kept)
    (migrates : Migrates erased storages write (fun depth => read depth count) contents)
    {whenEmpty : Reader Value} {reader : Nat → Reader Value}
    (opens : ∀ depth bytes before after copy,
      Takes (array version value.typeCode whenEmpty fun count => do
          return make (← read depth count)) bytes before after copy →
        Takes (reader (depth + 1)) (value.typeCode.toUInt8 :: bytes) before after copy) :
    Migrates (Value.inLayout currentVersion) Value.storages
      (arrayField ⟨version, shared⟩ value count write) reader kept := by
  obtain ⟨bytes, written, takes⟩ := migrates
  refine ⟨value.typeCode.toUInt8 :: (word32Field count ++ bytes), fun before =>
    run_arrayField (run_arrayHead_older old fits _ _) (written before), fun input => ?_⟩
  obtain ⟨result, next, taken, isKept, new⟩ := takes input
  refine ⟨(make result).storedAt (some next), next + 1, fun depth deep => ?_, becomes _ _ isKept,
    (stored result next).symm ▸ new.succ⟩
  obtain ⟨depth, rfl⟩ := Nat.exists_eq_succ_of_ne_zero (Nat.ne_zero_of_lt deep)
  have shorter : bytes.length < depth := by
    simp only [List.length_cons, List.length_append] at deep
    omega
  refine opens _ _ _ _ _ ((reads_arrayHead_older old fits input).bind
    ((takes_reserve_alone input).before ?_))
  exact ((taken depth shorter).then (Takes.pure (make result) _)).then (takes_finish false _ _ _)

/-! ### Values -/

/-- A value that is not an array. -/
theorem migrates_plain {write : Writer Bytes} {reader : Nat → Reader α} {bytes : Bytes} {result : α}
    {kept : γ} (written : ∀ before, write.run before = .ok (bytes, before))
    (reads : ∀ depth, Reads (reader (depth + 1)) bytes result) (same : erased result = kept)
    (none : storages result = []) : Migrates erased storages write reader kept := by
  refine ⟨bytes, written, fun input =>
    ⟨result, input.nextStorage, fun depth deep => ?_, same, ?_⟩⟩
  · obtain ⟨depth, rfl⟩ := Nat.exists_eq_succ_of_ne_zero (Nat.ne_zero_of_lt deep)
    exact reads depth input
  · rw [none]
    exact .nil _

theorem keeps_text (version : Nat) {bytes : Bytes}
    (fits : bytes.length ≤ Value.maximalTextLength) :
    Keeps (textField version bytes) (Reader.text version) ((Value.text bytes).inLayout version) := by
  rw [textField, Reader.text, Value.inLayout]
  by_cases long : holdsLongTexts version = true
  · rw [if_pos long, if_pos long, if_pos long]
    obtain ⟨written, isWritten, reads⟩ := keeps_long (fits.trans_lt (by decide))
    exact ⟨written, isWritten, reads.then (reads_sound (if_neg (Nat.not_lt.mpr fits)))⟩
  · rw [if_neg long, if_neg long, if_neg long]
    have cut : (bytes.take maximalShortLength).length ≤ maximalShortLength :=
      List.length_take_le _ _
    have fitsCut : (bytes.take maximalShortLength).length ≤ Value.maximalTextLength :=
      cut.trans (by decide)
    obtain ⟨written, isWritten, reads⟩ := keeps_short cut
    exact ⟨written, isWritten, reads.then (reads_sound (if_neg (Nat.not_lt.mpr fitsCut)))⟩

theorem migrates_grid {element : β → Outcome Bytes} {reader : Reader α} {kept : β → α}
    (grid : Grid β) (fits : grid.cols < Grid.sizeLimit)
    (keeps : ∀ cell ∈ grid.cells.toList, Keeps (element cell) reader (kept cell)) :
    Migrates id (fun _ => []) (liftM (gridField element grid))
      (fun _ => Reader.grid reader grid.rows) (grid.map kept) :=
  (keeps_grid_map grid fits keeps).migrates rfl rfl

/-- A value is read back as what its layout holds of it, unless it is a list that the layout has no
place for. -/
theorem migrates_value (old : holdsSharing version = false) {heap : Nat → Value} (value : Value)
    (held : value.IsHeldIn heap) (admitted : holdsLevels version = true ∨ value.isList = false) :
    Migrates (Value.inLayout currentVersion) Value.storages (valueField ⟨version, shared⟩ value)
      (valueWithin ⟨version, false⟩) (value.inLayout version) := by
  induction value using Value.item_induction with
  | null =>
      exact migrates_plain (fun _ => rfl)
        (fun _ => (reads_byte 0).then (Reads.pure Value.null)) rfl rfl
  | real x =>
      exact migrates_plain (fun _ => rfl)
        (fun _ => (reads_byte 1).bind ((reads_real x).map Value.real)) rfl rfl
  | complex z =>
      exact migrates_plain (fun _ => rfl)
        (fun _ => (reads_byte 2).bind ((reads_complex z).map Value.complex)) rfl rfl
  | text bytes =>
      obtain ⟨contents, isWritten, reads⟩ := keeps_text version held
      have written (before : List Nat) :
          (valueField ⟨version, shared⟩ (.text bytes)).run before = .ok (5 :: contents, before) := by
        simp [valueField, isWritten]
      exact migrates_plain written (fun _ => (reads_byte 5).bind reads) rfl rfl
  | realMatrix place grid =>
      obtain ⟨-, fewRows, fewCols, shortTexts⟩ := held
      have contents := migrates_grid grid fewCols fun element member =>
        keeps_cell version fun bytes isText => shortTexts bytes (isText ▸ member)
      refine migrates_array old fewRows (fun _ _ => rfl) ?_ contents
        fun depth bytes before after copy taken => (reads_byte 3 before).bind taken
      rintro _ new rfl
      simp [Value.newRealMatrix, Value.storedAt, Value.inLayout, Grid.map]
  | complexMatrix place grid =>
      obtain ⟨-, fewRows, fewCols⟩ := held
      have contents := migrates_grid grid fewCols fun z _ => (⟨_, rfl, reads_complex z⟩ :
        Keeps (.ok (realField z.re ++ realField z.im)) complex z)
      refine migrates_array old fewRows (fun _ _ => rfl) ?_ contents
        fun depth bytes before after copy taken => (reads_byte 4 before).bind taken
      rintro _ new rfl
      simp [Value.newComplexMatrix, Value.storedAt, Value.inLayout, Grid.map]
  | list place items ih =>
      obtain ⟨-, fewItems, heldItems⟩ := held
      have levels : holdsLevels version = true := admitted.resolve_right Bool.noConfusion
      have contents := migrates_many items fun item member =>
        ih item member (Value.allHeldIn_iff.mp heldItems item member) (.inl levels)
      rw [← valueFields_eq] at contents
      have opens (depth : Nat) (bytes : Bytes) (before after : Input) (copy : Value)
          (taken : Takes (array version 6 (finish false 0 (.list none [])) fun count => do
            return .list none (← many (valueWithin ⟨version, false⟩ depth) count)) bytes before
              after copy) :
          Takes (valueWithin ⟨version, false⟩ (depth + 1)) (6 :: bytes) before after copy := by
        refine (reads_byte 6 before).bind ?_
        change Takes (if holdsLevels version = true then _ else _) _ _ _ _
        rwa [if_pos levels]
      rw [valueField, if_pos levels]
      refine migrates_array old fewItems (fun results new => ?_) ?_ contents opens
      · rw [Value.storedAt, Value.storages, Value.allStorages_eq_flatMap]
        rfl
      · intro results new areKept
        rw [Value.storedAt, Value.inLayout, Value.inLayout, Value.allInLayout_eq_map, areKept,
          Value.allInLayout_eq_map]

end

end Keystroke.StateFile
