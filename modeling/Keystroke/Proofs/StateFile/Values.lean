import Mathlib
import Keystroke.Proofs.StateFile.Sharing

/-!
# Values in state files

A value is read back as a copy of what was written, whatever was written before it. The induction is on
the values; what a list holds is written and read between the beginning and the completion of the list.
-/

namespace Keystroke.StateFile

open Reader

/-! ## Matrices -/

theorem keeps_longCell {version : Nat} (long : holdsLongTexts version = true) {element : Cell}
    (fits : ∀ bytes, element = .text bytes → bytes.length ≤ Value.maximalTextLength) :
    Keeps (cellField version element) longCell element := by
  cases element with
  | number x => exact ⟨_, rfl, (reads_byte numberCell).bind ((reads_real x).map Cell.number)⟩
  | text bytes =>
      have bounded := fits bytes rfl
      by_cases isShort : bytes.length ≤ shortTextLength
      · have fitsShort : bytes.length ≤ maximalShortLength := isShort.trans (by decide)
        obtain ⟨written, isWritten, reads⟩ := keeps_short fitsShort
        refine ⟨shortTextCell :: written, ?_, (reads_byte shortTextCell).bind
          (reads.then (.require_bind (decide_eq_true isShort) (Reads.pure (Cell.text bytes))))⟩
        simp [cellField, long, isShort, isWritten]
      · have fitsLong : bytes.length < 0x100000000 := bounded.trans_lt (by decide)
        obtain ⟨written, isWritten, reads⟩ := keeps_long fitsLong
        refine ⟨longTextCell :: written, ?_, (reads_byte longTextCell).bind
          (reads.then (.require_bind (decide_eq_true bounded) (Reads.pure (Cell.text bytes))))⟩
        simp [cellField, long, isShort, isWritten]

theorem keeps_oldCell {version : Nat} (old : holdsLongTexts version = false) (cuts : Bool)
    (element : Cell) :
    Keeps (cellField version element) (oldCell cuts) (element.inLayout version) := by
  cases element with
  | number x => exact ⟨_, rfl, (reads_flag false).bind ((reads_real x).map Cell.number)⟩
  | text bytes =>
      have cut : (bytes.take shortTextLength).length ≤ shortTextLength := List.length_take_le _ _
      have short : (bytes.take shortTextLength).length ≤ maximalShortLength := cut.trans (by decide)
      refine ⟨shortTextCell :: ((bytes.take shortTextLength).length.toUInt8 ::
        bytes.take shortTextLength), ?_, ?_⟩
      · simp only [cellField, old, Bool.not_false, if_true]
        rw [shortField, if_pos short]
        rfl
      · refine (reads_flag true).bind ((reads_byte _).bind ?_)
        rw [toNat_shortLength short, if_neg (fun long => Nat.not_lt.mpr cut long.1)]
        have reads := (reads_bytes (bytes.take shortTextLength)).map
          fun text => Cell.text (text.take shortTextLength)
        rw [List.take_take, Nat.min_self] at reads
        simpa [Cell.inLayout, old] using reads

theorem keeps_cell (version : Nat) {element : Cell}
    (fits : ∀ bytes, element = .text bytes → bytes.length ≤ Value.maximalTextLength) :
    Keeps (cellField version element) (cell ⟨version, false⟩) (element.inLayout version) := by
  rw [cell]
  by_cases long : holdsLongTexts version = true
  · rw [if_pos long]
    have same : element.inLayout version = element := by
      cases element <;> simp [Cell.inLayout, long]
    rw [same]
    exact keeps_longCell long fits
  · rw [if_neg long]
    exact keeps_oldCell (by simpa using long) false element

theorem gridField_eq {α : Type} (element : α → Outcome Bytes) (grid : Grid α) :
    gridField element grid =
      (word32Field grid.cols ++ ·) <$> fields (grid.cells.toList.map element) := by
  simp [gridField, fields, List.mapM_map]

theorem ofCells_map {α β : Type} (kept : α → β) (grid : Grid α) :
    Grid.ofCells grid.rows grid.cols (grid.cells.toList.map kept).toArray = .ok (grid.map kept) := by
  have cells : (grid.cells.toList.map kept).toArray = (grid.cells.map kept).toArray := by
    rw [← List.map_toArray, Vector.toArray_map]
    rfl
  simp only [cells]
  simp [Grid.ofCells, grid.rows_pos, grid.cols_pos, Grid.map]

theorem keeps_grid_map {α β : Type} {element : α → Outcome Bytes} {reader : Reader β}
    {kept : α → β} (grid : Grid α) (fits : grid.cols < Grid.sizeLimit)
    (keeps : ∀ cell ∈ grid.cells.toList, Keeps (element cell) reader (kept cell)) :
    Keeps (gridField element grid) (Reader.grid reader grid.rows) (grid.map kept) := by
  obtain ⟨cells, written, reads⟩ := keeps_many_map grid.cells.toList keeps
  refine ⟨word32Field grid.cols ++ cells, ?_, ?_⟩
  · rw [gridField_eq, written]
    rfl
  · refine (reads_integer_word fits).bind (.require_bind (decide_eq_true ?_) ?_)
    · exact_mod_cast grid.cols_pos
    · rw [Vector.length_toList] at reads
      exact reads.then (reads_sound (ofCells_map kept grid))

theorem keeps_grid {α : Type} {element : α → Outcome Bytes} {reader : Reader α} (grid : Grid α)
    (fits : grid.cols < Grid.sizeLimit)
    (keeps : ∀ cell ∈ grid.cells.toList, Keeps (element cell) reader cell) :
    Keeps (gridField element grid) (Reader.grid reader grid.rows) grid := by
  have same : grid.map id = grid := by simp [Grid.map]
  have keepsMap := keeps_grid_map grid fits keeps
  rwa [show grid.map (fun cell => cell) = grid from same] at keepsMap

/-! ## Heads of arrays -/

section Head

variable {shared written : List Nat} {storage count index : Nat}

theorem run_arrayHead_empty (place : Storage) :
    (StateFile.arrayHead ⟨currentVersion, shared⟩ place 0).run written =
      .ok ((word32Field 0 ++ word32Field emptyListMark, false), written) := by
  rfl

theorem run_arrayHead_alone (full : count ≠ 0) (fits : count < Grid.sizeLimit)
    (alone : storage ∉ shared) :
    (StateFile.arrayHead ⟨currentVersion, shared⟩ (some storage) count).run written =
      .ok ((word32Field count, true), written) := by
  have admitted : ¬ 0x80000000 ≤ count := Nat.not_le.mpr fits
  simp [StateFile.arrayHead, admitted, full, alone, Option.filter]
  rfl

theorem run_arrayHead_first (full : count ≠ 0) (fits : count < Grid.sizeLimit)
    (several : storage ∈ shared) (unwritten : storage ∉ written) :
    (StateFile.arrayHead ⟨currentVersion, shared⟩ (some storage) count).run written =
      .ok ((integerField (-(count : Int)), true), written ++ [storage]) := by
  have admitted : ¬ 0x80000000 ≤ count := Nat.not_le.mpr fits
  have absent : written.idxOf? storage = none := List.idxOf?_eq_none_iff.mpr unwritten
  simp [StateFile.arrayHead, admitted, full, several, Option.filter, absent]
  rfl

theorem run_arrayHead_again (full : count ≠ 0) (fits : count < Grid.sizeLimit)
    (several : storage ∈ shared) (place : written.idxOf? storage = some index) :
    (StateFile.arrayHead ⟨currentVersion, shared⟩ (some storage) count).run written =
      .ok ((word32Field 0 ++ word32Field index, false), written) := by
  have admitted : ¬ 0x80000000 ≤ count := Nat.not_le.mpr fits
  simp [StateFile.arrayHead, admitted, full, several, Option.filter, place]
  rfl

theorem reads_arrayHead_empty :
    Reads (Reader.arrayHead currentVersion) (word32Field 0 ++ word32Field emptyListMark)
      .emptyList :=
  (reads_integer_word (by decide)).bind ((reads_word32 (by decide)).then (Reads.pure _))

theorem reads_arrayHead_again (known : index < emptyListMark) :
    Reads (Reader.arrayHead currentVersion) (word32Field 0 ++ word32Field index)
      (.earlier index) := by
  have small : index < 0x100000000 := known.trans (by decide)
  refine (reads_integer_word (by decide)).bind ((reads_word32 small).then ?_)
  rw [if_neg known.ne]
  exact Reads.pure _

theorem reads_arrayHead_alone (full : count ≠ 0) (fits : count < Grid.sizeLimit) :
    Reads (Reader.arrayHead currentVersion) (word32Field count) (.contents count false) := by
  refine (reads_integer_word fits).then ?_
  have positive : (0 : Int) < count := by omega
  rw [if_neg (by decide), if_neg positive.ne', if_pos positive]
  exact Reads.pure (ArrayHead.contents count false)

theorem reads_arrayHead_first (full : count ≠ 0) (fits : count < Grid.sizeLimit) :
    Reads (Reader.arrayHead currentVersion) (integerField (-(count : Int)))
      (.contents count true) := by
  rw [Grid.sizeLimit] at fits
  refine (reads_integer (by omega) (by omega)).then ?_
  have negative : ¬ (0 : Int) < -count := by omega
  rw [if_neg (by decide), if_neg (by omega), if_neg negative]
  have natAbs : (-(count : Int)).natAbs = count := by omega
  rw [natAbs]
  exact .require_bind (decide_eq_true (by omega)) (Reads.pure (ArrayHead.contents count true))

end Head

/-! ## Memory of the reader -/

theorem takes_reserve_shared (input : Input) :
    Takes (reserve true) [] input { input with shared := input.shared.push none }
      input.shared.size := by
  intro rest
  rfl

theorem takes_reserve_alone (input : Input) :
    Takes (reserve false) [] input input input.shared.size := by
  intro rest
  rfl

theorem takes_finish (isShared : Bool) (index : Nat) (value : Value) (input : Input) :
    Takes (finish isShared index value) [] input
      { input with
        nextStorage := input.nextStorage + 1
        shared :=
          if isShared then
            input.shared.setIfInBounds index (some (value.storedAt (some input.nextStorage)))
          else input.shared }
      (value.storedAt (some input.nextStorage)) := by
  intro rest
  rfl

theorem takes_earlierArray {index : Nat} {value : Value} {input : Input}
    (found : input.shared[index]? = some (some value)) :
    Takes (earlierArray index value.typeCode) [] input input value := by
  intro rest
  simp [earlierArray, found]
  rfl

/-! ## Transmission -/

section Transmission

variable {α β : Type}

/-- What is written at one point of a transfer is read back, which leads to a later point. Arrays may be
nested as deep as there are bytes. -/
def Carries (write : Writer Bytes) (read : Nat → Reader α) (point later : Transfer) (result : α) :
    Prop :=
  ∃ bytes, write.run point.written = .ok (bytes, later.written) ∧
    ∀ depth, bytes.length < depth → Takes (read depth) bytes point.input later.input result

/-- What is written at a point of a transfer can be read back, which counts these storages and gives
a copy. -/
def Transmits (heap : Nat → Value) (shared : List Nat) (point : Transfer) (counted : List Nat)
    (copies : (Nat → Option Nat) → α → Prop) (write : Writer Bytes) (read : Nat → Reader α) :
    Prop :=
  ∃ later result, later.counted = counted ∧ later.IsSound heap shared ∧
    Transfer.LeadsTo heap point later ∧ copies later.number result ∧
      Carries write read point later result

variable {heap : Nat → Value} {shared : List Nat} {point : Transfer} {storage : Nat}

/-- What does not depend on the point of a transfer. -/
theorem transmits_of_keeps (sound : point.IsSound heap shared) {field : Outcome Bytes}
    {reader : Reader α} {value : α} {copies : (Nat → Option Nat) → α → Prop}
    (keeps : Keeps field reader value) (copied : copies point.number value) :
    Transmits heap shared point point.counted copies (liftM field) (fun _ => reader) := by
  obtain ⟨bytes, written, reads⟩ := keeps
  refine ⟨point, value, rfl, sound, .refl heap point, copied, bytes, ?_, fun _ _ => reads _⟩
  rw [written]
  rfl

/-! ### Arrays -/

theorem run_arrayField {context : WriterContext} {value : Value} {count : Nat}
    {write : Writer Bytes} {head contents : Bytes} {written between later : List Nat}
    (headWritten : (StateFile.arrayHead context value.storage count).run written =
      .ok ((head, true), between))
    (contentsWritten : write.run between = .ok (contents, later)) :
    (arrayField context value count write).run written =
      .ok (value.typeCode.toUInt8 :: (head ++ contents), later) := by
  rw [arrayField, StateT.run_bind, headWritten]
  change (write >>= fun contents =>
    pure (value.typeCode.toUInt8 :: head ++ contents)).run between = _
  rw [StateT.run_bind, contentsWritten]
  rfl

theorem run_arrayField_head {context : WriterContext} {value : Value} {count : Nat}
    {write : Writer Bytes} {head : Bytes} {written later : List Nat}
    (headWritten : (StateFile.arrayHead context value.storage count).run written =
      .ok ((head, false), later)) :
    (arrayField context value count write).run written =
      .ok (value.typeCode.toUInt8 :: (head ++ []), later) := by
  rw [arrayField, StateT.run_bind, headWritten]
  rfl

/-- An array that was met before is read from its index. -/
theorem transmits_array_again (sound : point.IsSound heap shared) {value : Value}
    (stored : value.storage = some storage) (held : heap storage = value)
    (full : value.elementCount ≠ 0) (fits : value.elementCount < Grid.sizeLimit)
    (few : shared.length < emptyListMark) (member : storage ∈ point.counted)
    (several : storage ∈ shared) (closed : ¬ point.IsOpen heap storage) (write : Writer Bytes)
    (whenEmpty : Reader Value) :
    ∃ bytes copy,
      (arrayField ⟨currentVersion, shared⟩ value value.elementCount write).run point.written =
        .ok (value.typeCode.toUInt8 :: bytes, point.written) ∧
      Value.IsCopy point.number value copy ∧
      ∀ read, Takes (array currentVersion value.typeCode whenEmpty read) bytes point.input
        point.input copy := by
  subst held
  have isWritten : storage ∈ point.written :=
    (sound.mem_written storage).mpr ⟨member, several, full⟩
  obtain ⟨new, numbered⟩ : ∃ new, point.number storage = some new := by
    rw [← Option.ne_none_iff_exists']
    exact fun unnumbered => closed ⟨member, full, unnumbered⟩
  obtain ⟨index, isIndex⟩ := Option.isSome_iff_exists.mp (List.isSome_idxOf?.mpr isWritten)
  obtain ⟨inside, atIndex, -⟩ := List.idxOf?_eq_some_iff.mp isIndex
  obtain ⟨copy, found, copied⟩ :=
    sound.remembered index storage new (List.getElem?_eq_some_iff.mpr ⟨inside, atIndex⟩) numbered
  have known : index < emptyListMark := by
    have within : point.written ⊆ shared := fun other isWritten =>
      ((sound.mem_written other).mp isWritten).2.1
    calc
      index < point.written.length := inside
      _ ≤ shared.length := (sound.distinct.subperm within).length_le
      _ < emptyListMark := few
  have headWritten : (StateFile.arrayHead ⟨currentVersion, shared⟩ (heap storage).storage
      (heap storage).elementCount).run point.written =
        .ok ((word32Field 0 ++ word32Field index, false), point.written) := by
    rw [stored]
    exact run_arrayHead_again full fits several isIndex
  refine ⟨_, copy, run_arrayField_head headWritten, copied, fun read => ?_⟩
  rw [← copied.typeCode_eq]
  exact (reads_arrayHead_again known _).bind (takes_earlierArray found)

/-- The head of an array that was not met before, and the index that the reader keeps for it. -/
theorem exists_head (sound : point.IsSound heap shared) {count : Nat} (full : count ≠ 0)
    (fits : count < Grid.sizeLimit) (fresh : storage ∉ point.counted) :
    ∃ head,
      (StateFile.arrayHead ⟨currentVersion, shared⟩ (some storage) count).run point.written =
        .ok ((head, true), (point.start shared storage).written) ∧
      Reads (Reader.arrayHead currentVersion) head (.contents count (decide (storage ∈ shared))) ∧
      Takes (reserve (decide (storage ∈ shared))) [] point.input
        (point.start shared storage).input point.input.shared.size := by
  by_cases several : storage ∈ shared
  · have unwritten : storage ∉ point.written := fun member =>
      fresh ((sound.mem_written storage).mp member).1
    rw [decide_eq_true several, Transfer.start, if_pos several]
    exact ⟨_, run_arrayHead_first full fits several unwritten, reads_arrayHead_first full fits,
      takes_reserve_shared point.input⟩
  · rw [decide_eq_false several, Transfer.start, if_neg several]
    exact ⟨_, run_arrayHead_alone full fits several, reads_arrayHead_alone full fits,
      takes_reserve_alone point.input⟩

/-- What an array becomes once its contents were read and it is given a storage. -/
def BecomesCopy (storage : Nat) (value : Value) (number : Nat → Option Nat) (result : Value) :
    Prop :=
  ∀ later new, (∀ other otherNew, number other = some otherNew → later other = some otherNew) →
    later storage = some new → Value.IsCopy later value (result.storedAt (some new))

/-- An array that was not met before is read with its contents. -/
theorem transmits_array_first (sound : point.IsSound heap shared) {value : Value}
    (stored : value.storage = some storage) (held : heap storage = value)
    (full : value.elementCount ≠ 0) (fits : value.elementCount < Grid.sizeLimit)
    (fresh : storage ∉ point.counted) {counted : List Nat} {write : Writer Bytes}
    {read : Nat → Nat → Reader Value} (whenEmpty : Reader Value)
    (contents : Transmits heap shared (point.start shared storage) counted
      (BecomesCopy storage value) write (fun depth => read depth value.elementCount)) :
    ∃ bytes later copy, later.counted = counted ∧ later.IsSound heap shared ∧
      Transfer.LeadsTo heap point later ∧ Value.IsCopy later.number value copy ∧
      (arrayField ⟨currentVersion, shared⟩ value value.elementCount write).run point.written =
        .ok (value.typeCode.toUInt8 :: bytes, later.written) ∧
      ∀ depth, bytes.length < depth →
        Takes (array currentVersion value.typeCode whenEmpty (read depth)) bytes point.input
          later.input copy := by
  subst held
  obtain ⟨between, result, isCounted, soundBetween, leads, becomes, bytes, isWritten, takes⟩ :=
    contents
  obtain ⟨head, headWritten, readsHead, reserves⟩ := exists_head sound full fits fresh
  rw [← stored] at headWritten
  -- The array is still open once its contents were read, and its index is still its own.
  have begun : storage ∈ (point.start shared storage).counted := by
    rw [Transfer.start_counted]
    exact List.mem_cons_self
  have unnumbered : between.number storage = none := by
    rw [leads.number_eq storage begun, Transfer.start_number, Option.eq_none_iff_forall_ne_some]
    exact fun new numbered => fresh (sound.counted_of_number storage new numbered)
  have isOpen : between.IsOpen heap storage := ⟨leads.counted storage begun, full, unnumbered⟩
  have place : storage ∈ shared → between.written[point.input.shared.size]? = some storage := by
    intro several
    obtain ⟨others, append⟩ := leads.written
    rw [← append, Transfer.start, if_pos several]
    simp [sound.size_eq]
  let copy := result.storedAt (some between.input.nextStorage)
  let later := between.finish shared storage point.input.shared.size copy
  have copied : Value.IsCopy later.number (heap storage) copy := by
    refine becomes _ _ ?_ Transfer.finish_number_self
    intro other otherNew numbered
    have differs : other ≠ storage := by
      rintro rfl
      rw [unnumbered] at numbered
      contradiction
    rwa [Transfer.finish_number_of_ne differs]
  have finishes : Takes (finish (decide (storage ∈ shared)) point.input.shared.size result) []
      between.input later.input copy := by
    have taken :=
      takes_finish (decide (storage ∈ shared)) point.input.shared.size result between.input
    simp only [decide_eq_true_eq] at taken
    exact taken
  refine ⟨head ++ bytes, later, copy, isCounted, soundBetween.finish isOpen place copied,
    .finish fresh leads, copied, run_arrayField headWritten isWritten, fun depth deep => ?_⟩
  have shorter : bytes.length < depth := by
    rw [List.length_append] at deep
    omega
  exact (readsHead point.input).bind (reserves.bind ((takes depth shorter).then finishes))

theorem transmits_array (sound : point.IsSound heap shared) {value : Value}
    (stored : value.storage = some storage) (held : heap storage = value)
    (full : value.elementCount ≠ 0) (fits : value.elementCount < Grid.sizeLimit)
    (few : shared.length < emptyListMark) (alone : storage ∉ shared → storage ∉ point.counted)
    (closed : ¬ point.IsOpen heap storage) {counted : List Nat} {write : Writer Bytes}
    {read : Nat → Nat → Reader Value} {whenEmpty : Reader Value} {reader : Nat → Reader Value}
    (opens : ∀ depth bytes before after copy,
      Takes (array currentVersion value.typeCode whenEmpty (read depth)) bytes before after copy →
        Takes (reader (depth + 1)) (value.typeCode.toUInt8 :: bytes) before after copy)
    (contents : storage ∉ point.counted →
      Transmits heap shared (point.start shared storage) counted (BecomesCopy storage value) write
        (fun depth => read depth value.elementCount)) :
    Transmits heap shared point
      (if storage ∈ point.counted then storage :: point.counted else counted)
      (fun number => Value.IsCopy number value)
      (arrayField ⟨currentVersion, shared⟩ value value.elementCount write) reader := by
  by_cases member : storage ∈ point.counted
  · have several : storage ∈ shared := by
      by_contra notShared
      exact alone notShared member
    obtain ⟨bytes, copy, written, copied, takes⟩ :=
      transmits_array_again sound stored held full fits few member several closed write whenEmpty
    have stillClosed : ¬ (point.meet storage).IsOpen heap storage := fun isOpen =>
      closed ⟨member, isOpen.2⟩
    rw [if_pos member]
    refine ⟨point.meet storage, copy, rfl, sound.meet fun _ _ => member,
      Transfer.leadsTo_meet stillClosed, copied, _, written, fun depth deep => ?_⟩
    obtain ⟨depth, rfl⟩ := Nat.exists_eq_succ_of_ne_zero (Nat.ne_zero_of_lt deep)
    exact opens _ _ _ _ _ (takes _)
  · obtain ⟨bytes, later, copy, isCounted, soundLater, leads, copied, written, takes⟩ :=
      transmits_array_first sound stored held full fits member whenEmpty (contents member)
    rw [if_neg member]
    refine ⟨later, copy, isCounted, soundLater, leads, copied, _, written, fun depth deep => ?_⟩
    obtain ⟨depth, rfl⟩ := Nat.exists_eq_succ_of_ne_zero (Nat.ne_zero_of_lt deep)
    exact opens _ _ _ _ _ (takes depth (Nat.lt_of_succ_lt_succ deep))

/-! ### Sequences -/

theorem Transmits.map {counted : List Nat} {copies : (Nat → Option Nat) → α → Prop}
    {mapped : (Nat → Option Nat) → β → Prop} {write : Writer Bytes} {read : Nat → Reader α}
    (transmits : Transmits heap shared point counted copies write read) (f : α → β)
    (maps : ∀ number result, copies number result → mapped number (f result)) :
    Transmits heap shared point counted mapped write (fun depth => do return f (← read depth)) := by
  obtain ⟨later, result, isCounted, sound, leads, copied, bytes, written, takes⟩ := transmits
  exact ⟨later, f result, isCounted, sound, leads, maps _ _ copied, bytes, written,
    fun depth deep => (takes depth deep).then (Takes.pure (f result) later.input)⟩

theorem Transmits.imp {counted : List Nat} {copies implied : (Nat → Option Nat) → α → Prop}
    {write : Writer Bytes} {read : Nat → Reader α}
    (transmits : Transmits heap shared point counted copies write read)
    (implies : ∀ later result, Transfer.LeadsTo heap point later → copies later.number result →
      implied later.number result) :
    Transmits heap shared point counted implied write read := by
  obtain ⟨later, result, isCounted, sound, leads, copied, carries⟩ := transmits
  exact ⟨later, result, isCounted, sound, leads, implies later result leads copied, carries⟩

theorem Transmits.bind {counted countedNext : List Nat} {copies : (Nat → Option Nat) → α → Prop}
    {copiesNext : (Nat → Option Nat) → β → Prop} {write writeNext : Writer Bytes}
    {read : Nat → Reader α} {readNext : Nat → α → Reader β}
    (transmits : Transmits heap shared point counted copies write read)
    (transmitsNext : ∀ later result, later.counted = counted → later.IsSound heap shared →
      Transfer.LeadsTo heap point later → copies later.number result →
        Transmits heap shared later countedNext copiesNext writeNext
          (fun depth => readNext depth result)) :
    Transmits heap shared point countedNext copiesNext
      (do let first ← write; let second ← writeNext; return first ++ second)
      (fun depth => read depth >>= readNext depth) := by
  obtain ⟨between, result, isCounted, sound, leads, copied, first, written, takes⟩ := transmits
  obtain ⟨later, last, isCountedNext, soundNext, leadsNext, copiedNext, second, writtenNext,
    takesNext⟩ := transmitsNext between result isCounted sound leads copied
  refine ⟨later, last, isCountedNext, soundNext, leads.trans leadsNext, copiedNext, first ++ second,
    ?_, fun depth deep => ?_⟩
  · rw [StateT.run_bind, written]
    change (writeNext >>= fun second => pure (first ++ second)).run between.written = _
    rw [StateT.run_bind, writtenNext]
    rfl
  · rw [List.length_append] at deep
    exact (takes depth (by omega)).bind (takesNext depth (by omega))

theorem flatten_mapM_cons {γ : Type} (write : γ → Writer Bytes) (item : γ) (items : List γ) :
    List.flatten <$> (item :: items).mapM write = (do
      let first ← write item
      let others ← List.flatten <$> items.mapM write
      return first ++ others) := by
  simp

/-- Things one after the other, of which each has one value. -/
theorem transmits_many_go {γ δ : Type} {total : List Nat} {valueOf : γ → Value}
    {copies : (Nat → Option Nat) → γ → δ → Prop} {write : γ → Writer Bytes} {read : Nat → Reader δ}
    (mono : ∀ number later item copy,
      (∀ storage new, number storage = some new → later storage = some new) →
        copies number item copy → copies later item copy)
    (items : List γ) (reversed : List δ) (point : Transfer) (sound : point.IsSound heap shared)
    (within : holdersOfAll point.counted (items.map valueOf) <:+ total)
    (transmits : ∀ item ∈ items, ∀ later : Transfer, later.IsSound heap shared →
      (∀ storage, later.IsOpen heap storage → point.IsOpen heap storage) →
        holdersOf later.counted (valueOf item) <:+ total →
          Transmits heap shared later (holdersOf later.counted (valueOf item))
            (fun number => copies number item) (write item) read) :
    Transmits heap shared point (holdersOfAll point.counted (items.map valueOf))
      (fun number result =>
        ∃ copied, result = reversed.reverse ++ copied ∧ List.Forall₂ (copies number) items copied)
      (List.flatten <$> items.mapM write)
      (fun depth => many.go (read depth) items.length reversed) := by
  induction items generalizing reversed point with
  | nil =>
      exact ⟨point, reversed.reverse, rfl, sound, .refl heap point,
        ⟨[], (List.append_nil _).symm, .nil⟩, [], rfl, fun _ _ => Takes.pure _ _⟩
  | cons item items ih =>
      have withinFirst : holdersOf point.counted (valueOf item) <:+ total :=
        (suffix_holdersOfAll _ (items.map valueOf)).trans within
      have first := transmits item List.mem_cons_self point sound (fun _ isOpen => isOpen)
        withinFirst
      rw [flatten_mapM_cons]
      refine first.bind fun later copy isCounted soundLater leads copied => ?_
      have rest := ih (copy :: reversed) later soundLater (by rw [isCounted]; exact within)
        fun other member last soundLast stillOpen => transmits other (List.mem_cons_of_mem _ member)
          last soundLast fun storage isOpen => leads.isOpen (stillOpen storage isOpen)
      rw [isCounted] at rest
      refine rest.imp ?_
      rintro last result leadsLast ⟨copiedRest, rfl, areCopies⟩
      have copiedFirst := mono _ _ item copy (leadsLast.number_mono soundLater) copied
      exact ⟨copy :: copiedRest, by simp, .cons copiedFirst areCopies⟩

theorem transmits_many {γ δ : Type} {total : List Nat} {valueOf : γ → Value}
    {copies : (Nat → Option Nat) → γ → δ → Prop} {write : γ → Writer Bytes} {read : Nat → Reader δ}
    (mono : ∀ number later item copy,
      (∀ storage new, number storage = some new → later storage = some new) →
        copies number item copy → copies later item copy)
    (items : List γ) (point : Transfer) (sound : point.IsSound heap shared)
    (within : holdersOfAll point.counted (items.map valueOf) <:+ total)
    (transmits : ∀ item ∈ items, ∀ later : Transfer, later.IsSound heap shared →
      (∀ storage, later.IsOpen heap storage → point.IsOpen heap storage) →
        holdersOf later.counted (valueOf item) <:+ total →
          Transmits heap shared later (holdersOf later.counted (valueOf item))
            (fun number => copies number item) (write item) read) :
    Transmits heap shared point (holdersOfAll point.counted (items.map valueOf))
      (fun number => List.Forall₂ (copies number) items) (List.flatten <$> items.mapM write)
      (fun depth => many (read depth) items.length) := by
  refine (transmits_many_go mono items [] point sound within transmits).imp ?_
  rintro later result - ⟨copied, rfl, areCopies⟩
  exact areCopies

/-! ### Values -/

/-- A value that is not an array. -/
theorem transmits_plain (sound : point.IsSound heap shared) {value : Value} {write : Writer Bytes}
    {reader : Nat → Reader Value} {bytes : Bytes} (copied : Value.IsCopy point.number value value)
    (written : write.run point.written = .ok (bytes, point.written))
    (reads : ∀ depth, Reads (reader (depth + 1)) bytes value) :
    Transmits heap shared point point.counted (fun number => Value.IsCopy number value) write
      reader := by
  refine ⟨point, value, rfl, sound, .refl heap point, copied, bytes, written, fun depth deep => ?_⟩
  obtain ⟨depth, rfl⟩ := Nat.exists_eq_succ_of_ne_zero (Nat.ne_zero_of_lt deep)
  exact reads depth point.input

theorem transmits_emptyList (sound : point.IsSound heap shared)
    (held : heap storage = .list (some storage) []) :
    Transmits heap shared point (storage :: point.counted)
      (fun number => Value.IsCopy number (.list (some storage) []))
      (valueField ⟨currentVersion, shared⟩ (.list (some storage) []))
      (valueWithin ⟨currentVersion, false⟩) := by
  have isEmpty : (heap storage).elementCount = 0 := by
    rw [held]
    rfl
  let later : Transfer :=
    { point.meet storage with
      input := { point.input with nextStorage := point.input.nextStorage + 1 } }
  have met : (point.meet storage).IsSound heap shared :=
    sound.meet fun _ full => absurd isEmpty full
  have soundLater : later.IsSound heap shared :=
    { met with
      number_lt := fun other new numbered => Nat.lt_succ_of_lt (met.number_lt other new numbered) }
  have leads : Transfer.LeadsTo heap point later :=
    { Transfer.leadsTo_meet (fun isOpen => isOpen.2.1 isEmpty) with }
  refine ⟨later, .list (some point.input.nextStorage) [], rfl, soundLater, leads, .emptyList _ _, _,
    run_arrayField_head (run_arrayHead_empty _), fun depth deep => ?_⟩
  obtain ⟨depth, rfl⟩ := Nat.exists_eq_succ_of_ne_zero (Nat.ne_zero_of_lt deep)
  exact (reads_byte 6 _).bind ((reads_arrayHead_empty _).bind (takes_finish false 0 _ _))

/-- A matrix, with what is particular to its elements. -/
theorem transmits_grid (sound : point.IsSound heap shared) {value : Value} {grid : Grid α}
    (stored : value.storage = some storage) (held : heap storage = value)
    (rows : value.elementCount = grid.rows) (fewRows : grid.rows < Grid.sizeLimit)
    (fewCols : grid.cols < Grid.sizeLimit) (few : shared.length < emptyListMark)
    (alone : storage ∉ shared → storage ∉ point.counted) (closed : ¬ point.IsOpen heap storage)
    {element : α → Outcome Bytes} {readElement : Reader α}
    (keeps : ∀ cell ∈ grid.cells.toList, Keeps (element cell) readElement cell)
    {make : Grid α → Value}
    (becomes : ∀ number new, number storage = some new →
      Value.IsCopy number value ((make grid).storedAt (some new)))
    {whenEmpty : Reader Value} {reader : Nat → Reader Value}
    (opens : ∀ depth bytes before after copy,
      Takes (array currentVersion value.typeCode whenEmpty
          fun rows => do return make (← Reader.grid readElement rows)) bytes before after copy →
        Takes (reader (depth + 1)) (value.typeCode.toUInt8 :: bytes) before after copy) :
    Transmits heap shared point (storage :: point.counted) (fun number => Value.IsCopy number value)
      (arrayField ⟨currentVersion, shared⟩ value grid.rows (gridField element grid)) reader := by
  have full : value.elementCount ≠ 0 := by
    rw [rows]
    exact grid.rows_pos.ne'
  have fullInHeap : (heap storage).elementCount ≠ 0 := by rwa [held]
  have fits : value.elementCount < Grid.sizeLimit := by rwa [rows]
  rw [← rows]
  have contents (fresh : storage ∉ point.counted) :
      Transmits heap shared (point.start shared storage) (storage :: point.counted)
        (BecomesCopy storage value) (gridField element grid)
        (fun _ => do return make (← Reader.grid readElement value.elementCount)) := by
    have transmits : Transmits heap shared (point.start shared storage)
        (point.start shared storage).counted (fun _ result => result = grid)
        (gridField element grid) (fun _ => Reader.grid readElement grid.rows) :=
      transmits_of_keeps (sound.start fresh fullInHeap) (keeps_grid grid fewCols keeps) rfl
    rw [Transfer.start_counted, ← rows] at transmits
    refine transmits.map make ?_
    rintro _ _ rfl later new _ numbered
    exact becomes later new numbered
  have transmits := transmits_array sound stored held full fits few alone closed opens contents
  rwa [ite_self] at transmits

/-- What is larger than everything that is open is not open itself. -/
theorem closed_of_larger {value : Value} (held : heap storage = value)
    (larger : ∀ other, point.IsOpen heap other → sizeOf value < sizeOf (heap other)) :
    ¬ point.IsOpen heap storage := by
  intro isOpen
  have smaller := larger storage isOpen
  rw [held] at smaller
  exact Nat.lt_irrefl _ smaller

theorem valueFields_eq (context : WriterContext) (values : List Value) :
    valueFields context values = List.flatten <$> values.mapM (valueField context) := by
  induction values with
  | nil => rfl
  | cons value values ih => simp [valueFields, ih]

theorem holdersOf_list (counted : List Nat) (storage : Nat) (items : List Value) :
    holdersOf counted (.list (some storage) items) =
      if storage ∈ counted then storage :: counted
      else holdersOfAll (storage :: counted) items := by
  simp [holdersOf]

theorem cons_suffix_holdersOf_list (counted : List Nat) (storage : Nat) (items : List Value) :
    storage :: counted <:+ holdersOf counted (.list (some storage) items) := by
  rw [holdersOf_list]
  split
  · exact List.suffix_rfl
  · exact suffix_holdersOfAll _ items

/-- A list that is not empty, with what it holds. -/
theorem transmits_list (sound : point.IsSound heap shared) {items : List Value}
    (held : heap storage = .list (some storage) items) (full : items ≠ [])
    (fits : items.length < Grid.sizeLimit) (few : shared.length < emptyListMark)
    (alone : storage ∉ shared → storage ∉ point.counted) (closed : ¬ point.IsOpen heap storage)
    (transmitsItems : storage ∉ point.counted →
      Transmits heap shared (point.start shared storage)
        (holdersOfAll (storage :: point.counted) items)
        (fun number copies => Value.AreCopies number items copies)
        (valueFields ⟨currentVersion, shared⟩ items)
        (fun depth => many (valueWithin ⟨currentVersion, false⟩ depth) items.length)) :
    Transmits heap shared point (holdersOf point.counted (.list (some storage) items))
      (fun number => Value.IsCopy number (.list (some storage) items))
      (valueField ⟨currentVersion, shared⟩ (.list (some storage) items))
      (valueWithin ⟨currentVersion, false⟩) := by
  have countFull : (Value.list (some storage) items).elementCount ≠ 0 := fun length =>
    full (List.length_eq_zero_iff.mp length)
  let read (depth count : Nat) : Reader Value := do
    return .list none (← many (valueWithin ⟨currentVersion, false⟩ depth) count)
  have opens (depth : Nat) (bytes : Bytes) (before after : Input) (copy : Value)
      (taken : Takes (array currentVersion 6 (finish false 0 (.list none [])) (read depth)) bytes
        before after copy) :
      Takes (valueWithin ⟨currentVersion, false⟩ (depth + 1)) (6 :: bytes) before after copy :=
    (reads_byte 6 before).bind taken
  have contents (fresh : storage ∉ point.counted) :
      Transmits heap shared (point.start shared storage)
        (holdersOfAll (storage :: point.counted) items)
        (BecomesCopy storage (.list (some storage) items))
        (valueFields ⟨currentVersion, shared⟩ items) (fun depth => read depth items.length) :=
    (transmitsItems fresh).map (Value.list none)
      fun _ _ copied _ _ extended numbered => .list numbered (copied.mono extended)
  rw [holdersOf_list, valueField]
  exact transmits_array sound rfl held countFull fits few alone closed opens contents

variable {total : List Nat}

/-- A storage that only one place holds is met once. -/
theorem not_mem_of_alone {counted : List Nat}
    (mem_shared : ∀ storage, storage ∈ shared ↔ 1 < total.count storage)
    (within : storage :: counted <:+ total) (alone : storage ∉ shared) : storage ∉ counted := by
  intro member
  have counts : (storage :: counted).count storage ≤ total.count storage :=
    within.sublist.count_le storage
  rw [List.count_cons_self] at counts
  have positive : 0 < counted.count storage := List.count_pos_iff.mpr member
  exact alone ((mem_shared storage).mpr (by omega))

/-- A value is read back as a copy, wherever in a transfer it is written. -/
theorem transmits_value (mem_shared : ∀ storage, storage ∈ shared ↔ 1 < total.count storage)
    (few : shared.length < emptyListMark) (point : Transfer) (value : Value)
    (sound : point.IsSound heap shared) (held : value.IsHeldIn heap)
    (within : holdersOf point.counted value <:+ total)
    (larger : ∀ storage, point.IsOpen heap storage → sizeOf value < sizeOf (heap storage)) :
    Transmits heap shared point (holdersOf point.counted value)
      (fun number => Value.IsCopy number value) (valueField ⟨currentVersion, shared⟩ value)
      (valueWithin ⟨currentVersion, false⟩) := by
  induction value using Value.item_induction generalizing point with
  | null =>
      exact transmits_plain sound .null rfl fun _ => (reads_byte 0).then (Reads.pure Value.null)
  | real x =>
      exact transmits_plain sound (.real x) rfl fun _ =>
        (reads_byte 1).bind ((reads_real x).map Value.real)
  | complex z =>
      exact transmits_plain sound (.complex z) rfl fun _ =>
        (reads_byte 2).bind ((reads_complex z).map Value.complex)
  | text bytes =>
      have fits : bytes.length < 0x100000000 := Nat.lt_of_le_of_lt held (by decide)
      obtain ⟨contents, isWritten, reads⟩ := keeps_long fits
      have written : (valueField ⟨currentVersion, shared⟩ (.text bytes)).run point.written =
          .ok (5 :: contents, point.written) := by
        simp [valueField, textField, isWritten]
      have isText : Value.ofText bytes = .ok (.text bytes) := if_neg (Nat.not_lt.mpr held)
      exact transmits_plain sound (.text bytes) written fun _ =>
        (reads_byte 5).bind (reads.then (reads_sound isText))
  | realMatrix place grid =>
      obtain ⟨⟨storage, stored, inHeap⟩, fewRows, fewCols, shortTexts⟩ := held
      obtain rfl : place = some storage := stored
      refine transmits_grid sound rfl inHeap rfl fewRows fewCols few
        (not_mem_of_alone mem_shared within) (closed_of_larger inHeap larger) ?_ ?_
        fun depth bytes before after copy taken => (reads_byte 3 before).bind taken
      · rintro cell member
        refine keeps_longCell rfl ?_
        rintro bytes rfl
        exact shortTexts bytes member
      · exact fun number new numbered => .realMatrix grid numbered
  | complexMatrix place grid =>
      obtain ⟨⟨storage, stored, inHeap⟩, fewRows, fewCols⟩ := held
      obtain rfl : place = some storage := stored
      refine transmits_grid sound rfl inHeap rfl fewRows fewCols few
        (not_mem_of_alone mem_shared within) (closed_of_larger inHeap larger) ?_ ?_
        fun depth bytes before after copy taken => (reads_byte 4 before).bind taken
      · exact fun z member => ⟨_, rfl, reads_complex z⟩
      · exact fun number new numbered => .complexMatrix grid numbered
  | list place items ih =>
      obtain ⟨⟨storage, stored, inHeap⟩, fewItems, heldItems⟩ := held
      obtain rfl : place = some storage := stored
      by_cases isEmpty : items = []
      · subst isEmpty
        rw [holdersOf_list, holdersOfAll, ite_self]
        exact transmits_emptyList sound inHeap
      · have full : (heap storage).elementCount ≠ 0 := by
          rw [inHeap]
          exact fun length => isEmpty (List.length_eq_zero_iff.mp length)
        have metOnce := (cons_suffix_holdersOf_list point.counted storage items).trans within
        refine transmits_list sound inHeap isEmpty fewItems few
          (not_mem_of_alone mem_shared metOnce) (closed_of_larger inHeap larger) fun fresh => ?_
        rw [holdersOf_list, if_neg fresh] at within
        have begun : (point.start shared storage).counted = storage :: point.counted :=
          Transfer.start_counted
        rw [← begun, ← List.map_id items] at within
        have transmits := transmits_many (fun _ _ _ _ extended copied => copied.mono extended)
          items (point.start shared storage) (sound.start fresh full) within
          fun item member later soundLater stillOpen withinItem =>
            ih item member later soundLater (Value.allHeldIn_iff.mp heldItems item member)
              withinItem fun other isOpen => ?_
        · rw [begun, List.map_id, ← valueFields_eq] at transmits
          exact transmits.imp fun _ _ _ copied => Value.areCopies_iff.mpr copied
        · -- An item is smaller than its list, and so than everything that is open around it.
          have smaller : sizeOf item < sizeOf (Value.list (some storage) items) := by
            have := List.sizeOf_lt_of_mem member
            rw [Value.list.sizeOf_spec]
            omega
          rcases Transfer.isOpen_start (stillOpen other isOpen) with rfl | openBefore
          · rwa [inHeap]
          · exact smaller.trans (larger other openBefore)

end Transmission

end Keystroke.StateFile
