import Mathlib
import Keystroke.Proofs.Calls.Kept
import Keystroke.Proofs.StateFile.Migration
import Keystroke.Proofs.StateFile.Passing

/-!
# Values that come back

A reader gives every array that it meets for the first time a storage of its own. So what a call keeps has
storages of its own again, and all other values keep to the storages that are free, whatever a file says
they share with each other.
-/

namespace Keystroke.StateFile

open Reader

/-! ## Free storages -/

/-- Nothing that the reader remembers is in a storage that is taken. -/
structure Holds (shape : Nat → Nat → Prop) (taken : List Nat) (input : Input) : Prop where
  below : ∀ number ∈ taken, number < input.nextStorage
  shared : ∀ value, some value ∈ input.shared → value.Within shape (IsFree taken input.nextStorage)

variable {shape : Nat → Nat → Prop}

/-- What was free is free after new storages were given out and some of them were taken. -/
theorem AreNew.isFree {taken own : List Nat} {bound next number : Nat} (new : AreNew bound next own)
    (isFree : IsFree taken bound number) : IsFree (taken ++ own) next number := by
  refine ⟨isFree.1.trans_le new.le, fun member => ?_⟩
  rcases List.mem_append.mp member with older | newer
  · exact isFree.2 older
  · exact (new.given number newer).1.not_gt isFree.1

theorem AreNew.fits {taken own : List Nat} {bound next : Nat} (new : AreNew bound next own)
    {value : Value} (fits : value.Within shape (IsFree taken bound)) :
    value.Within shape (IsFree (taken ++ own) next) :=
  fits.imp fun _ => new.isFree

theorem fits_storedAt {free : Nat → Prop} {value : Value} {number : Nat} (fits : value.Within shape free)
    (isFree : free number) : (value.storedAt (some number)).Within shape free := by
  have place : ∀ other ∈ some number, free other := by
    rintro other ⟨⟩
    exact isFree
  cases value with
  | realMatrix storage grid => exact ⟨place, fits.2⟩
  | complexMatrix storage grid => exact ⟨place, fits.2⟩
  | list storage items => exact ⟨place, fits.2⟩
  | null | real | complex | text => exact fits

theorem Holds.withBytes {taken : List Nat} {input : Input} (holds : Holds shape taken input)
    (bytes : Bytes) : Holds shape taken { input with bytes } :=
  ⟨holds.below, holds.shared⟩

theorem withBytes_eq {input : Input} {bytes : Bytes} (same : input.bytes = bytes) :
    { input with bytes } = input := by
  rw [← same]

/-! ## Writing and reading -/

theorem exists_of_forall₂ {α β : Type} {relates : α → β → Prop} {items : List α} {results : List β}
    (related : List.Forall₂ relates items results) {result : β} (member : result ∈ results) :
    ∃ item ∈ items, relates item result := by
  obtain ⟨index, below, rfl⟩ := List.mem_iff_getElem.mp member
  have belowItems : index < items.length := related.length_eq ▸ below
  exact ⟨items[index], List.getElem_mem _, (List.forall₂_iff_get.mp related).2 index belowItems below⟩

section

variable {α β : Type} {taken : List Nat} {bound : Nat}

/-- If a reader succeeds on these bytes, whatever follows them, it takes them and no others, and gives a
result with a property that may depend on the storages which it takes and on those given out so far. -/
def Restores (shape : Nat → Nat → Prop) (taken : List Nat) (bound : Nat) (bytes : Bytes) (reader : Reader α)
    (property : List Nat → Nat → α → Prop) : Prop :=
  ∀ (before : Input) rest result after, Holds shape taken before → before.nextStorage = bound →
    reader.run { before with bytes := bytes ++ rest } = .ok (result, after) →
      after.bytes = rest ∧ ∃ own, AreNew bound after.nextStorage own ∧
        Holds shape (taken ++ own) after ∧ property own after.nextStorage result

/-- What can be written is restored if it is read at all. -/
def Tracks (shape : Nat → Nat → Prop) (taken : List Nat) (bound : Nat) (write : Writer Bytes) (read : Nat → Reader α)
    (property : List Nat → Nat → α → Prop) : Prop :=
  ∀ written bytes later, write.run written = .ok (bytes, later) →
    ∀ depth, Restores shape taken bound bytes (read depth) property

theorem run_bind_eq_ok {σ ε : Type} {first : StateT σ (Except ε) α}
    {next : α → StateT σ (Except ε) β} {before after : σ} {result : β} :
    (first >>= next).run before = .ok (result, after) ↔
      ∃ value between, first.run before = .ok (value, between) ∧
        (next value).run between = .ok (result, after) := by
  rw [StateT.run_bind]
  rcases first.run before with error | ⟨value, between⟩
  · constructor
    · rintro ⟨⟩
    · rintro ⟨_, _, ⟨⟩, -⟩
  · constructor
    · intro run
      exact ⟨value, between, rfl, run⟩
    · rintro ⟨_, _, ⟨⟩, run⟩
      exact run

theorem run_pure_eq_ok {value result : α} {written later : List Nat} :
    (pure value : Writer α).run written = .ok (result, later) ↔ result = value ∧ later = written := by
  rw [StateT.run_pure]
  constructor
  · rintro ⟨⟩
    exact ⟨rfl, rfl⟩
  · rintro ⟨rfl, rfl⟩
    rfl

theorem run_lift_eq_ok {outcome : Outcome α} {result : α} {written later : List Nat} :
    (liftM outcome : Writer α).run written = .ok (result, later) ↔
      outcome = .ok result ∧ later = written := by
  cases outcome with
  | error error =>
      constructor
      · rintro ⟨⟩
      · rintro ⟨⟨⟩, -⟩
  | ok value =>
      constructor
      · rintro ⟨⟩
        exact ⟨rfl, rfl⟩
      · rintro ⟨⟨⟩, rfl⟩
        rfl

variable {property : List Nat → Nat → α → Prop} {final : List Nat → Nat → β → Prop}

theorem Restores.imp {bytes : Bytes} {reader : Reader α} {weaker : List Nat → Nat → α → Prop}
    (restores : Restores shape taken bound bytes reader property)
    (weaken : ∀ own next result, AreNew bound next own → property own next result →
      weaker own next result) : Restores shape taken bound bytes reader weaker := by
  intro before rest result after holds atBound run
  obtain ⟨atRest, own, new, holdsAfter, held⟩ := restores before rest result after holds atBound run
  exact ⟨atRest, own, new, holdsAfter, weaken own _ result new held⟩

theorem Restores.bind {first second : Bytes} {reader : Reader α} {next : α → Reader β}
    (restores : Restores shape taken bound first reader property)
    (restoresNext : ∀ own between result, AreNew bound between own → property own between result →
      Restores shape (taken ++ own) between second (next result) fun more => final (own ++ more)) :
    Restores shape taken bound (first ++ second) (reader >>= next) final := by
  intro before rest last after holds atBound run
  rw [List.append_assoc] at run
  obtain ⟨result, middle, ran, run⟩ := run_bind_eq_ok.mp run
  obtain ⟨atRest, own, new, holdsMiddle, held⟩ := restores before _ result middle holds atBound ran
  rw [← withBytes_eq atRest] at run
  obtain ⟨atEnd, more, newer, holdsAfter, heldAfter⟩ := restoresNext own middle.nextStorage result new
    held middle rest last after holdsMiddle rfl run
  rw [List.append_assoc] at holdsAfter
  exact ⟨atEnd, own ++ more, new.append newer, holdsAfter, heldAfter⟩

/-- A field in which there is no array. -/
theorem Passes.restores {bytes : Bytes} {reader : Reader α} {holding : α → Prop}
    (passes : Passes reader bytes holding) :
    Restores shape taken bound bytes reader fun own next result =>
      own = [] ∧ next = bound ∧ holding result := by
  intro before rest result after holds atBound run
  obtain ⟨rfl, held⟩ := passes before rest result after run
  subst atBound
  refine ⟨rfl, [], .nil _, ?_, rfl, rfl, held⟩
  rw [List.append_nil]
  exact holds.withBytes rest

/-- What follows a field in which there is no array. -/
theorem Passes.andThen {first second : Bytes} {reader : Reader α} {next : α → Reader β}
    {holding : α → Prop} (passes : Passes reader first holding)
    (restoresNext : ∀ result, holding result → Restores shape taken bound second (next result) final) :
    Restores shape taken bound (first ++ second) (reader >>= next) final := by
  refine passes.restores.bind ?_
  rintro _ _ result - ⟨rfl, rfl, held⟩
  rw [List.append_nil]
  exact restoresNext result held

/-- What follows something that takes no bytes. -/
theorem Passes.inFront {bytes : Bytes} {reader : Reader α} {next : α → Reader β} {holding : α → Prop}
    (passes : Passes reader [] holding)
    (restoresNext : ∀ result, holding result → Restores shape taken bound bytes (next result) final) :
    Restores shape taken bound bytes (reader >>= next) final :=
  passes.andThen restoresNext

theorem Tracks.imp {write : Writer Bytes} {read : Nat → Reader α}
    {weaker : List Nat → Nat → α → Prop} (tracks : Tracks shape taken bound write read property)
    (weaken : ∀ own next result, AreNew bound next own → property own next result →
      weaker own next result) : Tracks shape taken bound write read weaker :=
  fun written bytes later wrote depth => (tracks written bytes later wrote depth).imp weaken

theorem Tracks.bind {first second : Writer Bytes} {read : Nat → Reader α}
    {next : Nat → α → Reader β} (tracks : Tracks shape taken bound first read property)
    (tracksNext : ∀ own between result, AreNew bound between own → property own between result →
      Tracks shape (taken ++ own) between second (fun depth => next depth result)
        fun more => final (own ++ more)) :
    Tracks shape taken bound (do let bytes ← first; let others ← second; return bytes ++ others)
      (fun depth => read depth >>= next depth) final := by
  intro written bytes later wrote depth
  obtain ⟨front, between, wroteFront, wroteRest⟩ := run_bind_eq_ok.mp wrote
  obtain ⟨behind, end', wroteBehind, same⟩ := run_bind_eq_ok.mp wroteRest
  obtain ⟨rfl, rfl⟩ := run_pure_eq_ok.mp same
  exact (tracks written front between wroteFront depth).bind fun own middle result new held =>
    tracksNext own middle result new held between behind later wroteBehind depth

theorem Restores.map {bytes : Bytes} {reader : Reader α} {f : α → β}
    (restores : Restores shape taken bound bytes reader property)
    (becomes : ∀ own next result, property own next result → final own next (f result)) :
    Restores shape taken bound bytes (do return f (← reader)) final := by
  intro before rest result after holds atBound run
  obtain ⟨value, between, ran, same⟩ := run_bind_eq_ok.mp run
  obtain ⟨rfl, rfl⟩ : result = f value ∧ after = between := by
    cases same
    exact ⟨rfl, rfl⟩
  obtain ⟨atRest, own, new, holdsAfter, held⟩ := restores before rest value after holds atBound ran
  exact ⟨atRest, own, new, holdsAfter, becomes own _ value held⟩

theorem Tracks.map {write : Writer Bytes} {read : Nat → Reader α} {f : α → β}
    (tracks : Tracks shape taken bound write read property)
    (becomes : ∀ own next result, property own next result → final own next (f result)) :
    Tracks shape taken bound write (fun depth => do return f (← read depth)) final :=
  fun written bytes later wrote depth => (tracks written bytes later wrote depth).map becomes

/-- What is not written is not read. -/
theorem tracks_failWith {read : Nat → Reader α} {kind : ErrorKind} {detail : String} :
    Tracks shape taken bound (failWith kind detail) read property := by
  intro written bytes later wrote
  cases wrote

theorem Passing.tracks {field : Outcome Bytes} {reader : Reader α} {holding : α → Prop}
    (passing : Passing field reader holding) :
    Tracks shape taken bound (liftM field) (fun _ => reader) fun own next result =>
      own = [] ∧ next = bound ∧ holding result := by
  intro written bytes later wrote _
  exact (passing bytes (run_lift_eq_ok.mp wrote).1).restores

end

/-! ## Heads of arrays -/

section

variable {version : Nat} {shared : List Nat} {storage : Storage} {count : Nat}

/-- Several places may hold the array in a storage. -/
def MayBeShared (shared : List Nat) (storage : Storage) : Prop := ∃ number ∈ shared, storage = some number

theorem arrayHead_eq (sharing : holdsSharing version = true) :
    Reader.arrayHead version = Reader.arrayHead currentVersion := by
  rw [Reader.arrayHead, Reader.arrayHead, sharing, holdsSharing_currentVersion]

theorem passes_arrayHead_earlier (index : Nat) :
    Passes (Reader.arrayHead currentVersion) (word32Field 0 ++ word32Field index)
      fun head => head = .emptyList ∨ ∃ index, head = .earlier index := by
  refine (reads_integer_word (by decide)).passes.bind ?_
  rintro _ rfl
  refine (passes_word 4 index).then fun place _ => passes_pure ?_
  split
  · exact .inl rfl
  · exact .inr ⟨place, rfl⟩

theorem writesArrayHead_eq (sharing : holdsSharing version = true) :
    StateFile.arrayHead ⟨version, shared⟩ = StateFile.arrayHead ⟨currentVersion, shared⟩ := by
  funext storage count
  rw [StateFile.arrayHead, StateFile.arrayHead, sharing, holdsSharing_currentVersion]

/-- The count in front of an array is read back, or a mark that its contents do not follow. -/
theorem passes_arrayHead {written later : List Nat} {head : Bytes} {follows : Bool}
    (wrote : (StateFile.arrayHead ⟨version, shared⟩ storage count).run written =
      .ok ((head, follows), later)) :
    (follows = true ∧ ∃ isShared, (isShared = true → MayBeShared shared storage) ∧
      Passes (Reader.arrayHead version) head (· = .contents count isShared)) ∨
    (follows = false ∧ count = 0 ∧ Passes (Reader.arrayHead version) head (· = .emptyList)) ∨
    (follows = false ∧ MayBeShared shared storage ∧ Passes (Reader.arrayHead version) head
      fun head => head = .emptyList ∨ ∃ index, head = .earlier index) := by
  have fits : count < Grid.sizeLimit := by
    by_contra large
    have refused : 0x80000000 ≤ count := Nat.le_of_not_lt large
    simp [StateFile.arrayHead, refused, fail] at wrote
  by_cases sharing : holdsSharing version = true
  · rw [arrayHead_eq sharing]
    rw [writesArrayHead_eq sharing] at wrote
    by_cases empty : count = 0
    · subst empty
      rw [run_arrayHead_empty] at wrote
      cases wrote
      exact .inr (.inl ⟨rfl, rfl, reads_arrayHead_empty.passes⟩)
    · cases place : storage.filter shared.contains with
      | none =>
          have alone : (StateFile.arrayHead ⟨currentVersion, shared⟩ storage count).run written =
              .ok ((word32Field count, true), written) := by
            have admitted : ¬ 0x80000000 ≤ count := Nat.not_le.mpr fits
            simp [StateFile.arrayHead, admitted, empty, place]
            rfl
          rw [alone] at wrote
          cases wrote
          exact .inl ⟨rfl, false, Bool.noConfusion, (reads_arrayHead_alone empty fits).passes⟩
      | some number =>
          obtain ⟨rfl, several⟩ : storage = some number ∧ number ∈ shared := by
            simpa using Option.filter_eq_some_iff.mp place
          have mayBe : MayBeShared shared (some number) := ⟨number, several, rfl⟩
          cases again : written.idxOf? number with
          | some index =>
              rw [run_arrayHead_again empty fits several again] at wrote
              cases wrote
              exact .inr (.inr ⟨rfl, mayBe, passes_arrayHead_earlier index⟩)
          | none =>
              rw [run_arrayHead_first empty fits several (List.idxOf?_eq_none_iff.mp again)] at wrote
              cases wrote
              exact .inl ⟨rfl, true, fun _ => mayBe, (reads_arrayHead_first empty fits).passes⟩
  · have old : holdsSharing version = false := by simpa using sharing
    rw [run_arrayHead_older old fits] at wrote
    cases wrote
    exact .inl ⟨rfl, false, Bool.noConfusion, (reads_arrayHead_older old fits).passes⟩

/-! ## Arrays -/

variable {α : Type} {taken : List Nat} {bound : Nat}

theorem run_arrayField_eq_ok {context : WriterContext} {value : Value} {contents : Writer Bytes}
    {written later : List Nat} {bytes : Bytes}
    (wrote : (arrayField context value count contents).run written = .ok (bytes, later)) :
    ∃ head follows between inner,
      (StateFile.arrayHead context value.storage count).run written = .ok ((head, follows), between) ∧
      bytes = value.typeCode.toUInt8 :: (head ++ inner) ∧
      if follows then contents.run between = .ok (inner, later) else inner = [] ∧ later = between := by
  obtain ⟨⟨head, follows⟩, between, wroteHead, wroteRest⟩ := run_bind_eq_ok.mp wrote
  cases follows with
  | true =>
      obtain ⟨inner, last, wroteInner, same⟩ := run_bind_eq_ok.mp wroteRest
      obtain ⟨rfl, rfl⟩ := run_pure_eq_ok.mp same
      exact ⟨head, true, between, inner, wroteHead, rfl, wroteInner⟩
  | false =>
      obtain ⟨inner, last, wroteInner, same⟩ := run_bind_eq_ok.mp wroteRest
      obtain ⟨rfl, rfl⟩ := run_pure_eq_ok.mp same
      exact ⟨head, false, between, inner, wroteHead, rfl, run_pure_eq_ok.mp wroteInner⟩

/-- An array is complete once its contents were read. -/
theorem Holds.finish {input : Input} (holds : Holds shape taken input) {value : Value}
    (fits : value.Within shape (IsFree taken input.nextStorage)) {isShared : Bool} {index : Nat}
    {result : Value} {after : Input}
    (run : (Reader.finish isShared index value).run input = .ok (result, after)) :
    after.bytes = input.bytes ∧ after.nextStorage = input.nextStorage + 1 ∧ Holds shape taken after ∧
      result = value.storedAt (some input.nextStorage) ∧
      result.Within shape (IsFree taken (input.nextStorage + 1)) := by
  have fitsStored : (value.storedAt (some input.nextStorage)).Within shape
      (IsFree taken (input.nextStorage + 1)) :=
    fits_storedAt (fits.imp fun _ isFree => isFree.later (Nat.le_succ _))
      ⟨Nat.lt_succ_self _, fun member => (holds.below _ member).false⟩
  cases run
  refine ⟨rfl, rfl, ⟨fun number member => (holds.below number member).trans (Nat.lt_succ_self _), ?_⟩,
    rfl, fitsStored⟩
  intro other member
  have older : some other ∈ input.shared → other.Within shape (IsFree taken (input.nextStorage + 1)) :=
    fun member => (holds.shared other member).imp fun _ isFree => isFree.later (Nat.le_succ _)
  dsimp only at member
  split at member
  · rcases Array.mem_or_eq_of_mem_setIfInBounds member with member | same
    · exact older member
    · rw [Option.some.inj same]
      exact fitsStored
  · exact older member

/-- The next index is given to an array that several places may hold. -/
theorem Holds.reserve {input : Input} (holds : Holds shape taken input) {isShared : Bool} {index : Nat}
    {after : Input} (run : (Reader.reserve isShared).run input = .ok (index, after)) :
    after.bytes = input.bytes ∧ after.nextStorage = input.nextStorage ∧ Holds shape taken after := by
  cases isShared with
  | false =>
      cases run
      exact ⟨rfl, rfl, holds⟩
  | true =>
      cases run
      refine ⟨rfl, rfl, holds.below, fun value member => ?_⟩
      rcases Array.mem_push.mp member with member | same
      · exact holds.shared value member
      · cases same

/-- An array that the reader remembers. -/
theorem Holds.earlierArray {input : Input} (holds : Holds shape taken input) {index typeCode : Nat}
    {result : Value} {after : Input}
    (run : (Reader.earlierArray index typeCode).run input = .ok (result, after)) :
    after = input ∧ result.Within shape (IsFree taken input.nextStorage) := by
  obtain ⟨_, _, ⟨⟩, run⟩ := run_bind_eq_ok.mp run
  rcases found : input.shared[index]? with _ | _ | stored
  · rw [found] at run
    cases run
  · rw [found] at run
    cases run
  · rw [found] at run
    dsimp only at run
    split at run
    · cases run
      exact ⟨rfl, holds.shared _ (Array.mem_of_getElem? found)⟩
    · cases run

/-- A value that was read keeps to free storages. -/
def IsOrdinary (shape : Nat → Nat → Prop) (taken own : List Nat) (next : Nat) (value : Value) : Prop :=
  own = [] ∧ value.Within shape (IsFree taken next)

/-- What the reader does for an empty list, or refuses to do. -/
def AllowsEmpty (whenEmpty : Reader Value) : Prop :=
  whenEmpty = refuse ∨ whenEmpty = Reader.finish false 0 (.list none [])

/-- An array that was written is read with its contents, or as an empty one, or it was read before. -/
theorem array_cases {contents : Writer Bytes} {whenEmpty : Reader Value} {read : Nat → Reader Value}
    {written between later : List Nat} {head inner rest : Bytes} {follows : Bool} {typeCode : Nat}
    {before after : Input} {result : Value}
    (wroteHead : (StateFile.arrayHead ⟨version, shared⟩ storage count).run written =
      .ok ((head, follows), between))
    (wroteInner : if follows then contents.run between = .ok (inner, later)
      else inner = [] ∧ later = between)
    (run : (array version typeCode whenEmpty read).run
      { before with bytes := head ++ (inner ++ rest) } = .ok (result, after)) :
    (∃ isShared index reserved stored filled, (isShared = true → MayBeShared shared storage) ∧
      contents.run between = .ok (inner, later) ∧
      (Reader.reserve isShared).run { before with bytes := inner ++ rest } = .ok (index, reserved) ∧
      (read count).run reserved = .ok (stored, filled) ∧
      (Reader.finish isShared index stored).run filled = .ok (result, after)) ∨
    ((count = 0 ∨ MayBeShared shared storage) ∧
      whenEmpty.run { before with bytes := rest } = .ok (result, after)) ∨
    (MayBeShared shared storage ∧ ∃ index,
      (Reader.earlierArray index typeCode).run { before with bytes := rest } = .ok (result, after)) := by
  obtain ⟨kind, middle, ranHead, run⟩ := run_bind_eq_ok.mp run
  rcases passes_arrayHead wroteHead with
    ⟨rfl, isShared, mayBe, passes⟩ | ⟨rfl, empty, passes⟩ | ⟨rfl, mayBe, passes⟩
  · obtain ⟨rfl, rfl⟩ := passes before _ kind middle ranHead
    obtain ⟨index, reserved, ranReserve, run⟩ := run_bind_eq_ok.mp run
    obtain ⟨stored, filled, ranContents, run⟩ := run_bind_eq_ok.mp run
    exact .inl ⟨isShared, index, reserved, stored, filled, mayBe, wroteInner, ranReserve, ranContents,
      run⟩
  · obtain ⟨rfl, rfl⟩ := passes before _ kind middle ranHead
    obtain ⟨rfl, -⟩ := wroteInner
    exact .inr (.inl ⟨.inl empty, run⟩)
  · obtain ⟨rfl, holdsKind⟩ := passes before _ kind middle ranHead
    obtain ⟨rfl, -⟩ := wroteInner
    rcases holdsKind with rfl | ⟨index, rfl⟩
    · exact .inr (.inl ⟨.inr mayBe, run⟩)
    · exact .inr (.inr ⟨mayBe, index, run⟩)

/-- An array that any place may hold. -/
theorem tracks_array (value : Value) (read : Nat → Nat → Reader Value) {write : Writer Bytes}
    {whenEmpty : Reader Value} {reader : Nat → Reader Value} (allows : AllowsEmpty whenEmpty)
    (opens : ∀ depth (input : Input) rest result after,
      (reader depth).run { input with bytes := value.typeCode.toUInt8 :: rest } = .ok (result, after) →
        ∃ inner, (array version value.typeCode whenEmpty (read inner)).run
          { input with bytes := rest } = .ok (result, after))
    (contents : Tracks shape taken bound write (fun depth => read depth count) (IsOrdinary shape taken)) :
    Tracks shape taken bound (arrayField ⟨version, shared⟩ value count write) reader (IsOrdinary shape taken) := by
  intro written bytes later wrote depth before rest result after holds atBound run
  obtain ⟨head, follows, between, inner, wroteHead, rfl, wroteInner⟩ := run_arrayField_eq_ok wrote
  rw [List.cons_append, List.append_assoc] at run
  obtain ⟨depth, run⟩ := opens depth before _ result after run
  suffices ends : after.bytes = rest ∧ bound ≤ after.nextStorage ∧ Holds shape taken after ∧
      result.Within shape (IsFree taken after.nextStorage) by
    refine ⟨ends.1, [], ⟨ends.2.1, List.nodup_nil, by simp⟩, ?_, rfl, ends.2.2.2⟩
    rw [List.append_nil]
    exact ends.2.2.1
  subst atBound
  rcases array_cases wroteHead wroteInner run with
    ⟨isShared, index, reserved, stored, filled, -, wroteInner, ranReserve, ranContents, run⟩ |
    ⟨-, run⟩ | ⟨-, index, run⟩
  · obtain ⟨sameBytes, sameNext, holdsReserved⟩ := (holds.withBytes _).reserve ranReserve
    rw [← withBytes_eq sameBytes] at ranContents
    obtain ⟨atRest, own, new, holdsFilled, rfl, fits⟩ := contents _ _ _ wroteInner depth reserved rest
      stored filled holdsReserved sameNext ranContents
    rw [List.append_nil] at holdsFilled
    obtain ⟨sameRest, nextStorage, holdsAfter, -, fitsResult⟩ := holdsFilled.finish fits run
    rw [nextStorage]
    exact ⟨sameRest.trans atRest, Nat.le_succ_of_le new.le, holdsAfter, fitsResult⟩
  · have fitsEmpty (free : Nat → Prop) : (Value.list none []).Within shape free := ⟨by simp, trivial⟩
    rcases allows with rfl | rfl
    · cases run
    · obtain ⟨sameRest, nextStorage, holdsAfter, -, fitsResult⟩ :=
        (holds.withBytes _).finish (fitsEmpty _) run
      rw [nextStorage]
      exact ⟨sameRest, Nat.le_succ _, holdsAfter, fitsResult⟩
  · obtain ⟨rfl, fits⟩ := (holds.withBytes _).earlierArray run
    exact ⟨rfl, le_rfl, holds.withBytes _, fits⟩

/-- An array in a storage of its own is complete once its contents were read. -/
theorem Holds.finishAlone {input : Input} (holds : Holds shape taken input) {index : Nat} {value result : Value}
    {after : Input} (run : (Reader.finish false index value).run input = .ok (result, after)) :
    after.bytes = input.bytes ∧ after.nextStorage = input.nextStorage + 1 ∧
      Holds shape (input.nextStorage :: taken) after ∧
      result = value.storedAt (some input.nextStorage) := by
  cases run
  refine ⟨rfl, rfl, ⟨fun number member => ?_, fun value member => ?_⟩, rfl⟩
  · rcases List.mem_cons.mp member with rfl | member
    · exact Nat.lt_succ_self _
    · exact (holds.below number member).trans (Nat.lt_succ_self _)
  · exact (holds.shared value member).imp fun number isFree => isFree.take isFree.1 (Nat.le_succ _)

theorem Holds.subset {input : Input} {others : List Nat} (holds : Holds shape taken input)
    (subset : ∀ number ∈ others, number ∈ taken) : Holds shape others input where
  below number member := holds.below number (subset number member)
  shared value member := (holds.shared value member).imp fun number isFree =>
    ⟨isFree.1, fun member => isFree.2 (subset number member)⟩

/-- A list in a storage of its own comes back in one. -/
theorem tracks_alone {number : Nat} {items : List Value} {cuts : Bool}
    {property : List Nat → Nat → List Value → Prop} (alone : number ∉ shared)
    (contents : Tracks shape taken bound (valueFields ⟨version, shared⟩ items)
      (fun depth => many (valueWithin ⟨version, cuts⟩ depth) items.length) property) :
    Tracks shape taken bound (valueField ⟨version, shared⟩ (.list (some number) items))
      (valueWithin ⟨version, cuts⟩) fun own next result => ∃ others results new,
        own = new :: others ∧ next = new + 1 ∧ result = .list (some new) results ∧
          property others new results := by
  rw [valueField]
  split
  case isFalse => exact tracks_failWith
  case isTrue levels =>
    intro written bytes later wrote depth before rest result after holds atBound run
    obtain ⟨head, follows, between, inner, wroteHead, rfl, wroteInner⟩ := run_arrayField_eq_ok wrote
    rw [List.cons_append, List.append_assoc] at run
    cases depth with
    | zero => cases run
    | succ depth =>
        have runArray : (array version 6 (Reader.finish false 0 (.list none [])) fun count => do
            return .list none (← many (valueWithin ⟨version, cuts⟩ depth) count)).run
            { before with bytes := head ++ (inner ++ rest) } = .ok (result, after) := by
          change (if holdsLevels version = true then _ else _ : Reader Value).run _ = _ at run
          rwa [if_pos levels] at run
        have notShared : ¬ MayBeShared shared (some number) := by
          rintro ⟨_, member, ⟨⟩⟩
          exact alone member
        subst atBound
        -- The number is not shared, so the list is no earlier array and is not counted as one.
        rcases array_cases wroteHead wroteInner runArray with
          ⟨isShared, index, reserved, stored, filled, mayBe, wroteInner, ranReserve, ranContents, run⟩ |
          ⟨empty | mayBe, ranEmpty⟩ | ⟨mayBe, -⟩
        · obtain rfl : isShared = false := by simpa using mt mayBe notShared
          cases ranReserve
          obtain ⟨results, full, ranItems, same⟩ := run_bind_eq_ok.mp ranContents
          cases same
          obtain ⟨atRest, own, new, holdsFilled, held⟩ := contents _ _ _ wroteInner depth before rest
            results filled holds rfl ranItems
          obtain ⟨sameRest, nextStorage, holdsAfter, isResult⟩ := holdsFilled.finishAlone run
          refine ⟨sameRest.trans atRest, _ :: own, nextStorage ▸ new.succ, holdsAfter.subset ?_, own,
            results, _, rfl, nextStorage, isResult, held⟩
          simp only [List.mem_append, List.mem_cons]
          tauto
        · obtain rfl := List.length_eq_zero_iff.mp empty
          obtain ⟨-, own, new, -, held⟩ := contents [] [] [] rfl 0 before rest [] _ holds rfl rfl
          obtain rfl : own = [] := List.eq_nil_iff_forall_not_mem.mpr fun storage member =>
            (new.given storage member).1.not_gt (new.given storage member).2
          obtain ⟨sameRest, nextStorage, holdsAfter, isResult⟩ :=
            (holds.withBytes rest).finishAlone ranEmpty
          refine ⟨sameRest, [_], nextStorage ▸ (AreNew.nil _).succ, holdsAfter.subset ?_, [], [], _,
            rfl, nextStorage, isResult, held⟩
          simp only [List.mem_append, List.mem_cons]
          tauto
        · exact absurd mayBe notShared
        · exact absurd mayBe notShared

end

/-! ## Values -/

section

variable {version : Nat} {shared : List Nat} {cuts : Bool}

theorem passing_cell (element : Cell) :
    Passing (cellField version element) (cell ⟨version, cuts⟩) fun _ => True := by
  rw [cell]
  by_cases long : holdsLongTexts version = true
  · rw [if_pos long]
    by_cases fits : ∀ bytes, element = .text bytes → bytes.length ≤ Value.maximalTextLength
    · exact (keeps_longCell long fits).passing.imp fun _ _ => trivial
    · push Not at fits
      obtain ⟨bytes, rfl, large⟩ := fits
      have notShort : ¬ bytes.length ≤ shortTextLength := by
        have : shortTextLength ≤ Value.maximalTextLength := by decide
        omega
      have parts : cellField version (.text bytes) = fields [.ok [longTextCell], longField bytes] := by
        simp only [cellField, long, notShort]
        cases longField bytes <;> simp [fields]
      rw [parts]
      refine passing_front fun others written => (reads_byte longTextCell).passes.bind ?_
      rintro _ rfl
      exact (passing_long bytes).last.then
        (fun _ _ => .require_bind fun _ => passes_pure trivial) others written
  · rw [if_neg long]
    exact (keeps_oldCell (by simpa using long) cuts element).passing.imp fun _ _ => trivial

theorem passing_grid {α β : Type} {element : α → Outcome Bytes} {reader : Reader β} (grid : Grid α)
    (narrow : Grid.IsNarrow grid.rows grid.cols)
    (passing : ∀ cell, Passing (element cell) reader fun _ => True) :
    Passing (gridField element grid) (Reader.grid reader grid.rows)
      fun result => result.rows = grid.rows ∧ result.cols = grid.cols := by
  have parts : gridField element grid =
      fields (.ok (word32Field grid.cols) :: grid.cells.toList.map element) := by
    rw [gridField_eq, fields_ok_cons]
  rw [parts]
  refine passing_front fun others written => (reads_integer_word narrow).passes.bind ?_
  rintro _ rfl
  refine .require_bind fun _ => ?_
  have cells := passing_many_go grid.cells.toList [] fun cell _ => passing cell
  rw [Vector.length_toList] at cells
  refine (cells others written).then fun read _ => (passes_sound _).imp fun result isGrid => ?_
  have same := Grid.ends_ofCells grid.rows grid.cols read.toArray
  rw [Int.toNat_natCast] at isGrid
  rwa [isGrid] at same

theorem passing_text (bytes : Bytes) :
    Passing (textField version bytes) (Reader.text version) fun result =>
      ∃ read, result = .text read ∧ (holdsLongTexts version = true → read = bytes) := by
  have becomesText (read : Bytes) : Passes (sound (Value.ofText read)) [] (· = .text read) := by
    refine (passes_sound _).imp fun result isText => ?_
    have ends := Machine.ordinary_ofText read
    rwa [isText] at ends
  rw [textField, Reader.text]
  by_cases long : holdsLongTexts version = true
  · rw [if_pos long, if_pos long]
    refine (passing_long bytes).then ?_
    rintro _ rfl
    exact (becomesText _).imp fun _ same => ⟨_, same, fun _ => rfl⟩
  · rw [if_neg long, if_neg long]
    refine (passing_short _).then fun read _ => ?_
    exact (becomesText read).imp fun _ same => ⟨_, same, fun isLong => absurd isLong long⟩

variable {taken : List Nat} {bound : Nat}

/-- A value that is not an array. -/
theorem tracks_plain (code : UInt8) {field : Outcome Bytes} {inner : Reader Value}
    {write : Writer Bytes} {holding : Value → Prop}
    (wrote : ∀ written bytes later, write.run written = .ok (bytes, later) →
      ∃ contents, field = .ok contents ∧ bytes = code :: contents)
    (opens : ∀ depth (input : Input) rest,
      (valueWithin ⟨version, cuts⟩ (depth + 1)).run { input with bytes := code :: rest } =
        inner.run { input with bytes := rest })
    (passing : Passing field inner holding) :
    Tracks shape taken bound write (valueWithin ⟨version, cuts⟩) fun own next result =>
      own = [] ∧ next = bound ∧ holding result := by
  intro written bytes later wroteAll depth
  obtain ⟨contents, wroteContents, rfl⟩ := wrote written bytes later wroteAll
  refine Passes.restores fun before rest result after run => ?_
  cases depth with
  | zero => cases run
  | succ depth =>
      rw [List.cons_append, opens depth before] at run
      exact passing contents wroteContents before rest result after run

theorem tracks_real (x : Binary64) :
    Tracks shape taken bound (valueField ⟨version, shared⟩ (.real x)) (valueWithin ⟨version, cuts⟩)
      fun own next result => own = [] ∧ next = bound ∧ result = .real x := by
  have passing : Passing (.ok (realField x)) (do return .real (← real)) (· = Value.real x) :=
    passing_ok ((reads_real x).passes.map fun _ same => congrArg Value.real same)
  refine tracks_plain 1 (fun written bytes later wrote => ?_) (fun _ _ _ => rfl) passing
  exact ⟨_, rfl, (run_pure_eq_ok.mp wrote).1⟩

theorem tracks_text (bytes : Bytes) :
    Tracks shape taken bound (valueField ⟨version, shared⟩ (.text bytes)) (valueWithin ⟨version, cuts⟩)
      fun own next result => own = [] ∧ next = bound ∧
        ∃ read, result = .text read ∧ (holdsLongTexts version = true → read = bytes) := by
  refine tracks_plain 5 (fun written bytes later wrote => ?_) (fun _ _ _ => rfl) (passing_text bytes)
  obtain ⟨contents, between, wroteContents, same⟩ := run_bind_eq_ok.mp wrote
  exact ⟨contents, (run_lift_eq_ok.mp wroteContents).1, (run_pure_eq_ok.mp same).1⟩

/-- A matrix. -/
theorem tracks_matrix {α β : Type} {value : Value} {element : α → Outcome Bytes} {reader : Reader β}
    {make : Grid β → Value} (grid : Grid α) (narrow : Grid.IsNarrow grid.rows grid.cols)
    (plain : ∀ read : Grid β, read.rows = grid.rows ∧ read.cols = grid.cols →
      ∀ free, (make read).Within shape free)
    (passing : ∀ cell, Passing (element cell) reader fun _ => True)
    (opens : ∀ depth (input : Input) rest,
      (valueWithin ⟨version, cuts⟩ (depth + 1)).run
        { input with bytes := value.typeCode.toUInt8 :: rest } =
      (array version value.typeCode refuse fun rows => do return make (← Reader.grid reader rows)).run
        { input with bytes := rest }) :
    Tracks shape taken bound (arrayField ⟨version, shared⟩ value grid.rows (gridField element grid))
      (valueWithin ⟨version, cuts⟩) (IsOrdinary shape taken) := by
  have contents : Passing (gridField element grid)
      (do return make (← Reader.grid reader grid.rows)) fun result : Value =>
        ∀ free, result.Within shape free :=
    (passing_grid grid narrow passing).then fun read same => passes_pure (plain read same)
  refine tracks_array value (fun _ rows => do return make (← Reader.grid reader rows)) (.inl rfl)
    (fun depth input rest result after run => ?_)
    (contents.tracks.imp fun own next result _ held => ⟨held.1, held.2.2 _⟩)
  cases depth with
  | zero => cases run
  | succ depth => exact ⟨depth, (opens depth input rest).symm.trans run⟩

theorem tracks_items_nil {reversed : List Value} {read : Nat → Reader Value}
    {property : List Nat → Nat → List Value → Prop} (holds : property [] bound reversed.reverse) :
    Tracks shape taken bound (valueFields ⟨version, shared⟩ [])
      (fun depth => many.go (read depth) 0 reversed) property := by
  have passing : Passing (.ok []) (many.go (read 0) 0 reversed) (· = reversed.reverse) :=
    passing_ok (passes_pure rfl)
  refine passing.tracks.imp ?_
  rintro _ _ _ - ⟨rfl, rfl, rfl⟩
  exact holds

theorem Tracks.items_cons {value : Value} {items reversed : List Value} {read : Nat → Reader Value}
    {property : List Nat → Nat → Value → Prop} {final : List Nat → Nat → List Value → Prop}
    (tracks : Tracks shape taken bound (valueField ⟨version, shared⟩ value) read property)
    (tracksItems : ∀ own between result, AreNew bound between own → property own between result →
      Tracks shape (taken ++ own) between (valueFields ⟨version, shared⟩ items)
        (fun depth => many.go (read depth) items.length (result :: reversed))
        fun more => final (own ++ more)) :
    Tracks shape taken bound (valueFields ⟨version, shared⟩ (value :: items))
      (fun depth => many.go (read depth) (items.length + 1) reversed) final :=
  tracks.bind tracksItems

/-- Values one after the other, none of which takes a storage. -/
theorem tracks_items {items : List Value} {read : Nat → Reader Value}
    (relates : Nat → Value → Value → Prop) (reversed : List Value)
    (later : ∀ item bound next result, bound ≤ next → relates bound item result →
      relates next item result)
    (tracks : ∀ item ∈ items, ∀ bound, Tracks shape taken bound (valueField ⟨version, shared⟩ item) read
      fun own next result => own = [] ∧ relates next item result) :
    Tracks shape taken bound (valueFields ⟨version, shared⟩ items)
      (fun depth => many.go (read depth) items.length reversed) fun own next results =>
        own = [] ∧ ∃ read, results = reversed.reverse ++ read ∧
          List.Forall₂ (relates next) items read := by
  induction items generalizing bound reversed with
  | nil => exact tracks_items_nil ⟨rfl, [], (List.append_nil _).symm, .nil⟩
  | cons item items ih =>
      refine (tracks item List.mem_cons_self bound).items_cons ?_
      rintro _ between result new ⟨rfl, related⟩
      rw [List.append_nil]
      refine (ih (result :: reversed) fun other member =>
        tracks other (List.mem_cons_of_mem _ member)).imp ?_
      rintro own next _ newer ⟨rfl, read, rfl, others⟩
      refine ⟨rfl, result :: read, by simp, .cons (later _ _ _ _ newer.le related) others⟩

theorem tracks_ordinary_items {items : List Value} {read : Nat → Reader Value}
    (tracks : ∀ item ∈ items, ∀ bound,
      Tracks shape taken bound (valueField ⟨version, shared⟩ item) read (IsOrdinary shape taken)) :
    Tracks shape taken bound (valueFields ⟨version, shared⟩ items)
      (fun depth => many (read depth) items.length) fun own next results =>
        own = [] ∧ results.length = items.length ∧ ∀ result ∈ results, result.Within shape (IsFree taken next) := by
  refine (tracks_items (fun bound _ result => result.Within shape (IsFree taken bound)) []
    (fun _ _ _ _ le fits => fits.imp fun _ isFree => isFree.later le) tracks).imp ?_
  rintro own next _ - ⟨rfl, results, rfl, fit⟩
  refine ⟨rfl, fit.length_eq.symm, fun result member => ?_⟩
  obtain ⟨_, -, fits⟩ := exists_of_forall₂ fit member
  exact fits

/-- A value is read back as one that keeps to free storages. -/
theorem tracks_value (narrow : ∀ rows cols, 0 < rows → shape rows cols → Grid.IsNarrow rows cols)
    {free : Nat → Prop} (value : Value) (fits : value.Within shape free) :
    Tracks shape taken bound (valueField ⟨version, shared⟩ value) (valueWithin ⟨version, cuts⟩)
      (IsOrdinary shape taken) := by
  induction value using Value.item_induction generalizing bound with
  | null =>
      have passing : Passing (.ok []) (pure Value.null) (· = .null) := passing_ok (passes_pure rfl)
      refine (tracks_plain 0 (fun written bytes later wrote => ?_) (fun _ _ _ => rfl) passing).imp ?_
      · exact ⟨[], rfl, (run_pure_eq_ok.mp wrote).1⟩
      · rintro _ _ _ - ⟨rfl, -, rfl⟩
        exact ⟨rfl, trivial⟩
  | real x =>
      refine (tracks_real x).imp ?_
      rintro _ _ _ - ⟨rfl, -, rfl⟩
      exact ⟨rfl, trivial⟩
  | complex z =>
      have passing : Passing (.ok (realField z.re ++ realField z.im)) (do return .complex (← complex))
          (· = Value.complex z) :=
        passing_ok ((reads_complex z).passes.map fun _ same => congrArg Value.complex same)
      refine (tracks_plain 2 (fun written bytes later wrote => ?_) (fun _ _ _ => rfl) passing).imp ?_
      · exact ⟨_, rfl, (run_pure_eq_ok.mp wrote).1⟩
      · rintro _ _ _ - ⟨rfl, -, rfl⟩
        exact ⟨rfl, trivial⟩
  | text bytes =>
      refine (tracks_text bytes).imp ?_
      rintro _ _ _ - ⟨rfl, -, read, rfl, -⟩
      exact ⟨rfl, trivial⟩
  | realMatrix place grid =>
      exact tracks_matrix grid (narrow _ _ grid.rows_pos fits.2)
        (fun read same free => Value.within_newRealMatrix.mpr (same.1 ▸ same.2 ▸ fits.2)) passing_cell
        fun _ _ _ => rfl
  | complexMatrix place grid =>
      exact tracks_matrix grid (narrow _ _ grid.rows_pos fits.2)
        (fun read same free => Value.within_newComplexMatrix.mpr (same.1 ▸ same.2 ▸ fits.2))
        (fun z => passing_ok ((reads_complex z).passes.imp fun _ _ => trivial)) fun _ _ _ => rfl
  | list place items ih =>
      rw [valueField]
      split
      case isFalse => exact tracks_failWith
      case isTrue levels =>
        refine tracks_array (.list place items) (fun depth count => do
            return .list none (← many (valueWithin ⟨version, cuts⟩ depth) count)) (.inr rfl)
          (fun depth input rest result after run => ?_) ?_
        · cases depth with
          | zero => cases run
          | succ depth =>
              refine ⟨depth, ?_⟩
              change (if holdsLevels version = true then _ else _ : Reader Value).run _ = _ at run
              rwa [if_pos levels] at run
        · have fitItems := Value.allWithin_iff.mp fits.2
          refine (tracks_ordinary_items fun item member bound =>
            ih item member (fitItems item member)).map ?_
          rintro own next results ⟨rfl, -, fit⟩
          exact ⟨rfl, by simp, Value.allWithin_iff.mpr fit⟩

end

end Keystroke.StateFile
