import Mathlib
import Keystroke.Proofs.Arguments
import Keystroke.Proofs.StateFile.Layouts
import Keystroke.StateFile.Reader

/-!
# Fields of state files

What a reader takes from the front of the input, whatever follows there. Each kind of field is read back
as it was written, and the law composes along a sequence of fields.
-/

namespace Keystroke.StateFile

open Reader

/-- A reader takes exactly these bytes, gives a value, and otherwise leaves the input as it is `after`.
The bytes of `before` and `after` themselves do not count. -/
def Takes {α : Type} (reader : Reader α) (bytes : Bytes) (before after : Input) (value : α) :
    Prop :=
  ∀ rest, reader.run { before with bytes := bytes ++ rest } =
    .ok (value, { after with bytes := rest })

/-- A reader takes exactly these bytes and gives a value, without remembering anything. -/
def Reads {α : Type} (reader : Reader α) (bytes : Bytes) (value : α) : Prop :=
  ∀ input, Takes reader bytes input input value

/-- A field can be written, and is read back as a value. -/
def Keeps {α : Type} (field : Outcome Bytes) (reader : Reader α) (value : α) : Prop :=
  ∃ bytes, field = .ok bytes ∧ Reads reader bytes value

variable {α β : Type}

theorem Reads.keeps {reader : Reader α} {bytes : Bytes} {value : α}
    (reads : Reads reader bytes value) : Keeps (.ok bytes) reader value :=
  ⟨bytes, rfl, reads⟩

/-! ## Sequences -/

theorem Takes.bind {reader : Reader α} {next : α → Reader β} {first second : Bytes}
    {before between after : Input} {value : α} {result : β}
    (taken : Takes reader first before between value)
    (takenNext : Takes (next value) second between after result) :
    Takes (reader >>= next) (first ++ second) before after result := by
  intro rest
  rw [StateT.run_bind, List.append_assoc, taken]
  exact takenNext rest

theorem Takes.pure (value : α) (input : Input) :
    Takes (Pure.pure value : Reader α) [] input input value := by
  intro rest
  rfl

theorem Reads.bind {reader : Reader α} {next : α → Reader β} {first second : Bytes} {value : α}
    {result : β} (reads : Reads reader first value) (readsNext : Reads (next value) second result) :
    Reads (reader >>= next) (first ++ second) result :=
  fun input => (reads input).bind (readsNext input)

theorem Reads.pure (value : α) : Reads (Pure.pure value) [] value :=
  Takes.pure value

/-- What takes no bytes behind a field: a check that passes, or a use of the value. -/
theorem Takes.then {reader : Reader α} {next : α → Reader β} {bytes : Bytes}
    {before between after : Input} {value : α} {result : β}
    (taken : Takes reader bytes before between value)
    (takenNext : Takes (next value) [] between after result) :
    Takes (reader >>= next) bytes before after result := by
  have both := taken.bind takenNext
  rwa [List.append_nil] at both

theorem Reads.then {reader : Reader α} {next : α → Reader β} {bytes : Bytes} {value : α}
    {result : β}
    (reads : Reads reader bytes value) (readsNext : Reads (next value) [] result) :
    Reads (reader >>= next) bytes result :=
  fun input => (reads input).then (readsNext input)

/-- What takes no bytes in front of a field. -/
theorem Takes.before {reader : Reader α} {next : α → Reader β} {bytes : Bytes}
    {before between after : Input} {value : α} {result : β}
    (taken : Takes reader [] before between value)
    (takenNext : Takes (next value) bytes between after result) :
    Takes (reader >>= next) bytes before after result :=
  taken.bind takenNext

theorem Reads.before {reader : Reader α} {next : α → Reader β} {bytes : Bytes} {value : α}
    {result : β} (reads : Reads reader [] value) (readsNext : Reads (next value) bytes result) :
    Reads (reader >>= next) bytes result :=
  reads.bind readsNext

theorem Reads.map {reader : Reader α} {bytes : Bytes} {value : α} (reads : Reads reader bytes value)
    (f : α → β) : Reads (do return f (← reader)) bytes (f value) :=
  reads.then (Reads.pure (f value))

theorem reads_require {condition : Bool} (holds : condition = true) :
    Reads (require condition) [] () := by
  subst holds
  exact Reads.pure ()

theorem Reads.require_bind {condition : Bool} {next : Reader β} {bytes : Bytes} {result : β}
    (holds : condition = true) (readsNext : Reads next bytes result) :
    Reads (do require condition; next) bytes result :=
  (reads_require holds).before readsNext

theorem reads_sound {outcome : Outcome α} {value : α} (succeeds : outcome = .ok value) :
    Reads (sound outcome) [] value := by
  subst succeeds
  exact Reads.pure value

theorem reads_present {found : Option α} {value : α} (isThere : found = some value) :
    Reads (present found) [] value := by
  subst isThere
  exact Reads.pure value

/-! ## Bytes and words -/

theorem reads_byte (byte : UInt8) : Reads Reader.byte [byte] byte := by
  intro input rest
  rfl

theorem reads_bytes (written : Bytes) : Reads (bytes written.length) written written := by
  intro input rest
  simp [bytes, require]
  rfl

theorem reads_flag (condition : Bool) : Reads flag (flagField condition) condition := by
  intro input rest
  cases condition <;> rfl

theorem reads_word {count word : Nat} (fits : word < 256 ^ count) :
    Reads (Reader.word count) (Codec.wordBytes count word) word := by
  have reads := (reads_bytes (Codec.wordBytes count word)).map Codec.wordOf
  rwa [Codec.wordBytes_length, Codec.wordOf_wordBytes, Nat.mod_eq_of_lt fits] at reads

theorem reads_word16 {word : Nat} (fits : word < 0x10000) :
    Reads (Reader.word 2) (word16Field word) word :=
  reads_word fits

theorem reads_word32 {word : Nat} (fits : word < 0x100000000) :
    Reads (Reader.word 4) (word32Field word) word :=
  reads_word fits

theorem reads_word64 (word : UInt64) : Reads word64 (word64Field word) word := by
  have fits : word.toNat < 256 ^ 8 := word.toNat_lt
  have reads := (reads_word fits).map Nat.toUInt64
  rwa [show word.toNat.toUInt64 = word from UInt64.ofNat_toNat] at reads

/-- An integer is read as the one near zero that leaves the same remainder. -/
theorem reads_integer_bmod (integer : Int) :
    Reads Reader.integer (integerField integer) (integer.bmod 0x100000000) := by
  have fits : (integer % 0x100000000).toNat < 0x100000000 := by omega
  have same : ((integer % 0x100000000).toNat : Int).bmod 0x100000000 = integer.bmod 0x100000000 := by
    rw [Int.toNat_of_nonneg (by omega)]
    exact Int.emod_bmod ..
  have reads := (reads_word32 fits).map fun word => (word : Int).bmod 0x100000000
  rwa [same] at reads

theorem reads_integer {integer : Int} (low : -0x80000000 ≤ integer) (high : integer < 0x80000000) :
    Reads Reader.integer (integerField integer) integer := by
  have same : integer.bmod 0x100000000 = integer := by
    rw [Int.bmod_def]
    omega
  have reads := reads_integer_bmod integer
  rwa [same] at reads

/-- A count is read as a signed number as well. -/
theorem reads_integer_word {number : Nat} (fits : number < 0x80000000) :
    Reads Reader.integer (word32Field number) (number : Int) := by
  have whole : integerField number = word32Field number := by
    rw [integerField]
    congr 1
    omega
  rw [← whole]
  exact reads_integer (by omega) (by omega)

theorem reads_real (x : Binary64) : Reads real (realField x) x :=
  (reads_word64 x.bits).map Binary64.mk

theorem reads_complex (z : ComplexNumber) :
    Reads complex (realField z.re ++ realField z.im) z :=
  (reads_real z.re).bind ((reads_real z.im).map _)

@[simp]
theorem ok_bind (value : α) (next : α → Outcome β) : (Except.ok value >>= next) = next value :=
  rfl

@[simp]
theorem error_bind (error : Error) (next : α → Outcome β) :
    ((Except.error error : Outcome α) >>= next) = .error error :=
  rfl

theorem bind_eq_ok {outcome : Outcome α} {next : α → Outcome β} {result : β} :
    (outcome >>= next) = .ok result ↔ ∃ value, outcome = .ok value ∧ next value = .ok result := by
  cases outcome with
  | error error =>
      constructor
      · rintro ⟨⟩
      · rintro ⟨_, ⟨⟩, -⟩
  | ok value =>
      constructor
      · intro ends
        exact ⟨value, rfl, ends⟩
      · rintro ⟨_, ⟨⟩, ends⟩
        exact ends

/-! ## Fields with a length -/

theorem countField_eq {count : Nat} (fits : count < 0x100000000) :
    countField count = .ok (word32Field count) :=
  if_pos fits

theorem keeps_count {count : Nat} (fits : count < 0x100000000) :
    Keeps (countField count) (Reader.word 4) count :=
  ⟨_, countField_eq fits, reads_word32 fits⟩

theorem toNat_shortLength {length : Nat} (fits : length ≤ maximalShortLength) :
    length.toUInt8.toNat = length := by
  rw [maximalShortLength] at fits
  rw [Nat.toUInt8, UInt8.toNat_ofNat', Nat.mod_eq_of_lt (by omega)]

theorem keeps_short {bytes : Bytes} (fits : bytes.length ≤ maximalShortLength) :
    Keeps (shortField bytes) short bytes := by
  have length : bytes.length.toUInt8.toNat = bytes.length := toNat_shortLength fits
  refine ⟨bytes.length.toUInt8 :: bytes, if_pos fits, ?_⟩
  refine (reads_byte _).bind ?_
  rw [length]
  exact reads_bytes bytes

theorem keeps_long {bytes : Bytes} (fits : bytes.length < 0x100000000) :
    Keeps (longField bytes) long bytes := by
  refine ⟨word32Field bytes.length ++ bytes, ?_, (reads_word32 fits).bind (reads_bytes bytes)⟩
  rw [longField, countField_eq fits]
  rfl

theorem keeps_shortText {text : String} (fits : (Text.toBytes text).length ≤ maximalShortLength) :
    Keeps (shortField (Text.toBytes text)) shortText text := by
  obtain ⟨bytes, written, reads⟩ := keeps_short fits
  exact ⟨bytes, written, reads.then (reads_present (Text.ofBytes?_toBytes text))⟩

theorem keeps_address {address : Option Nat} (fits : ∀ place ∈ address, place < 0x80000000) :
    Keeps (addressField address) Reader.address address := by
  cases address with
  | none =>
      have readsTop : Reads Reader.integer (integerField (-1)) (-1) :=
        reads_integer (by omega) (by omega)
      exact ⟨_, rfl, readsTop.then (Reads.pure none)⟩
  | some place =>
      have small : place < 0x80000000 := fits place rfl
      exact ⟨word32Field place, if_pos small,
        (reads_integer_word small).then (Reads.pure (some place))⟩

/-! ## Repeated fields -/

@[simp]
theorem fields_nil : fields [] = .ok [] :=
  rfl

@[simp]
theorem fields_ok_cons (first : Bytes) (rest : List (Outcome Bytes)) :
    fields (.ok first :: rest) = (first ++ ·) <$> fields rest := by
  simp [fields]

theorem fields_append_ok {parts others : List (Outcome Bytes)} {first second : Bytes}
    (written : fields parts = .ok first) (writtenOthers : fields others = .ok second) :
    fields (parts ++ others) = .ok (first ++ second) := by
  cases collected : parts.mapM id with
  | error error => simp [fields, collected] at written
  | ok collectedParts =>
      cases collectedNext : others.mapM id with
      | error error => simp [fields, collectedNext] at writtenOthers
      | ok collectedOthers =>
          have flat : collectedParts.flatten = first := by simpa [fields, collected] using written
          have flatNext : collectedOthers.flatten = second := by
            simpa [fields, collectedNext] using writtenOthers
          simp [fields, List.mapM_append, collected, collectedNext, flat, flatNext]

theorem fields_cons_ok {field : Outcome Bytes} {rest : List (Outcome Bytes)}
    {first others : Bytes} (written : field = .ok first) (writtenRest : fields rest = .ok others) :
    fields (field :: rest) = .ok (first ++ others) := by
  have writtenFirst : fields [field] = .ok first := by simp [written]
  exact fields_append_ok writtenFirst writtenRest

theorem Keeps.cons {field : Outcome Bytes} {rest : List (Outcome Bytes)} {reader : Reader α}
    {next : α → Reader β} {value : α} {result : β} (keeps : Keeps field reader value)
    (keepsRest : Keeps (fields rest) (next value) result) :
    Keeps (fields (field :: rest)) (reader >>= next) result := by
  obtain ⟨first, written, reads⟩ := keeps
  obtain ⟨others, writtenRest, readsRest⟩ := keepsRest
  exact ⟨first ++ others, fields_cons_ok written writtenRest, reads.bind readsRest⟩

theorem Keeps.require_bind {field : Outcome Bytes} {condition : Bool} {next : Reader β} {result : β}
    (holds : condition = true) (keepsNext : Keeps field next result) :
    Keeps field (do require condition; next) result := by
  obtain ⟨bytes, written, reads⟩ := keepsNext
  exact ⟨bytes, written, reads.require_bind holds⟩

theorem keeps_many_go {field : α → Outcome Bytes} {reader : Reader β} {kept : α → β}
    (values : List α) (reversed : List β)
    (keeps : ∀ value ∈ values, Keeps (field value) reader (kept value)) :
    Keeps (fields (values.map field)) (many.go reader values.length reversed)
      (reversed.reverse ++ values.map kept) := by
  induction values generalizing reversed with
  | nil => exact ⟨[], rfl, by simpa [many.go] using Reads.pure reversed.reverse⟩
  | cons value values ih =>
      have keepsRest := ih (kept value :: reversed) fun other member =>
        keeps other (List.mem_cons_of_mem _ member)
      rw [List.reverse_cons, List.append_assoc] at keepsRest
      exact (keeps value List.mem_cons_self).cons keepsRest

/-- Fields of one kind are read one after the other, each as what its layout keeps. -/
theorem keeps_many_map {field : α → Outcome Bytes} {reader : Reader β} {kept : α → β}
    (values : List α) (keeps : ∀ value ∈ values, Keeps (field value) reader (kept value)) :
    Keeps (fields (values.map field)) (many reader values.length) (values.map kept) :=
  keeps_many_go values [] keeps

theorem keeps_many {field : α → Outcome Bytes} {reader : Reader α} (values : List α)
    (keeps : ∀ value ∈ values, Keeps (field value) reader value) :
    Keeps (fields (values.map field)) (many reader values.length) values := by
  simpa only [List.map_id'] using keeps_many_map values keeps

theorem keeps_counted_map {field : α → Outcome Bytes} {reader : Reader β} {kept : α → β}
    (values : List α) (fits : values.length < 0x100000000)
    (keeps : ∀ value ∈ values, Keeps (field value) reader (kept value)) :
    Keeps (fields (countField values.length :: values.map field)) (counted reader)
      (values.map kept) :=
  (keeps_count fits).cons (keeps_many_map values keeps)

theorem keeps_counted {field : α → Outcome Bytes} {reader : Reader α} (values : List α)
    (fits : values.length < 0x100000000)
    (keeps : ∀ value ∈ values, Keeps (field value) reader value) :
    Keeps (fields (countField values.length :: values.map field)) (counted reader) values :=
  (keeps_count fits).cons (keeps_many values keeps)

theorem reads_many {reader : Reader α} {write : α → Bytes} (values : List α)
    (reads : ∀ value ∈ values, Reads reader (write value) value) :
    Reads (many reader values.length) (values.flatMap write) values := by
  have written :
      fields (values.map fun value => .ok (write value)) = .ok (values.flatMap write) := by
    clear reads
    induction values with
    | nil => rfl
    | cons value values ih =>
        rw [List.map_cons, fields_ok_cons, ih]
        rfl
  obtain ⟨bytes, isWritten, readsAll⟩ := keeps_many values
    fun value member => (⟨_, rfl, reads value member⟩ : Keeps (.ok (write value)) reader value)
  rw [written] at isWritten
  rwa [← Except.ok.inj isWritten] at readsAll

theorem keeps_optional_map {field : α → Outcome Bytes} {reader : Reader β} {kept : α → β}
    (optional : Option α) (keeps : ∀ value ∈ optional, Keeps (field value) reader (kept value)) :
    Keeps (optionalField field optional) (Reader.optional reader) (optional.map kept) := by
  cases optional with
  | none => exact ⟨_, rfl, (reads_flag false).then (Reads.pure none)⟩
  | some value =>
      obtain ⟨bytes, written, reads⟩ := keeps value rfl
      refine ⟨flagField true ++ bytes, ?_, (reads_flag true).bind (reads.map some)⟩
      rw [optionalField, written]
      rfl

theorem keeps_optional {field : α → Outcome Bytes} {reader : Reader α} (optional : Option α)
    (keeps : ∀ value ∈ optional, Keeps (field value) reader value) :
    Keeps (optionalField field optional) (Reader.optional reader) optional := by
  simpa only [Option.map_id'] using keeps_optional_map optional keeps

end Keystroke.StateFile
