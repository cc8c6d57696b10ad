import Keystroke.Instruction.Source
import Keystroke.Proofs.JumpCaches

/-!
# What is read of an instruction

Where the length of an instruction is known, a source that has the bytes of this instruction and no others is
enough, so nothing outside of it is read. What is read of other bytes, if none is missing, is what `decode`
gives too.
-/

namespace Keystroke.Codec

/-- The bytes from a place up to another one. -/
def window (bytes : List UInt8) (start stop : Nat) : Source :=
  fun place => if start ≤ place ∧ place < stop then bytes[place]? else none

namespace Source

/-! ## Sources that have some bytes -/

/-- Whether a source has these bytes at a place. -/
def Shows (source : Source) (place : Nat) (bytes : List UInt8) : Prop :=
  ∀ offset < bytes.length, source (place + offset) = bytes[offset]?

variable {source : Source} {place : Nat}

theorem shows_cons {byte : UInt8} {rest : List UInt8} :
    source.Shows place (byte :: rest) ↔
      source place = some byte ∧ source.Shows (place + 1) rest := by
  constructor
  · intro shown
    refine ⟨shown 0 (by simp), fun offset within => ?_⟩
    have next := shown (offset + 1) (by simpa using within)
    rwa [Nat.add_comm offset 1, ← Nat.add_assoc, Nat.add_comm 1 offset, List.getElem?_cons_succ]
      at next
  · rintro ⟨first, shown⟩ offset within
    cases offset with
    | zero => exact first
    | succ offset =>
        rw [List.getElem?_cons_succ, ← shown offset (by simpa using within)]
        congr 1
        omega

theorem Shows.drop {shown : List UInt8} (shows : source.Shows place shown) (count : Nat) :
    source.Shows (place + count) (shown.drop count) := by
  intro offset within
  rw [List.length_drop] at within
  rw [Nat.add_assoc, shows (count + offset) (by omega), List.getElem?_drop]

theorem Shows.bytes {shown : List UInt8} (shows : source.Shows place shown) {count : Nat}
    (within : count ≤ shown.length) : source.bytes place count = some (shown.take count) := by
  induction count generalizing place shown with
  | zero => rfl
  | succ count ih =>
      cases shown with
      | nil => simp at within
      | cons byte rest =>
          obtain ⟨first, further⟩ := shows_cons.mp shows
          rw [Source.bytes, first, Option.bind_eq_bind, Option.bind_some,
            ih further (by simpa using within)]
          rfl

theorem Shows.groups {shown : List UInt8} {size limit count : Nat} {start : UInt32}
    {result : UInt32 × Nat} (shows : source.Shows (place + count) shown)
    (inside : place + count + shown.length ≤ size)
    (read : readGroups.go limit start count shown = some result) :
    source.groups size place limit start count = some (some result) := by
  induction limit generalizing count start shown with
  | zero => simp [readGroups.go] at read
  | succ limit ih =>
      cases shown with
      | nil => simp [readGroups.go] at read
      | cons byte rest =>
          obtain ⟨first, further⟩ := shows_cons.mp shows
          rw [List.length_cons] at inside
          rw [readGroups.go] at read
          rw [Source.groups, if_pos (by omega), first, Option.bind_eq_bind, Option.bind_some]
          simp only at read ⊢
          split at read
          · next last =>
              rw [if_pos last, ← read]
              rfl
          · next more =>
              rw [if_neg more]
              exact ih further (by omega) read

theorem Shows.bytesToZero {shown : List UInt8} {size length : Nat}
    (shows : source.Shows place shown) (within : place + shown.length ≤ size)
    (found : lengthToZero? shown = some length) :
    source.bytesToZero size place = some (shown.takeWhile (· ≠ 0)) := by
  induction shown generalizing place length with
  | nil => simp [lengthToZero?] at found
  | cons byte rest ih =>
      obtain ⟨first, further⟩ := shows_cons.mp shows
      rw [List.length_cons] at within
      rw [Source.bytesToZero, if_pos (by omega), first, Option.bind_eq_bind, Option.bind_some]
      by_cases zero : byte = 0
      · simp [zero]
      · rw [lengthToZero?, if_neg zero, Option.map_eq_some_iff] at found
        obtain ⟨behind, found, -⟩ := found
        rw [if_neg zero, ih further (by omega) found]
        simp [zero]

theorem Shows.double {shown : List UInt8} {textFollows : Bool} {size length : Nat}
    (shows : source.Shows place shown) (inside : place + shown.length ≤ size)
    (known : argumentLength? .double textFollows shown = some length) (within : length ≤ shown.length)
    (opcode : Opcode) :
    source.argument size opcode .double textFollows place =
      some (readArgument opcode .double textFollows shown) := by
  cases textFollows with
  | false =>
      obtain rfl : 8 = length := by simpa [argumentLength?] using known
      rw [Source.argument, shows.bytes within]
      rfl
  | true =>
      rw [argumentLength?, if_pos rfl, Option.map_eq_some_iff] at known
      obtain ⟨behind, found, rfl⟩ := known
      have eight : 8 ≤ shown.length := by omega
      have size : place + 8 + (shown.drop 8).length ≤ size := by
        rw [List.length_drop]
        omega
      rw [Source.argument, shows.bytes eight]
      simp only [Option.bind_eq_bind, Option.bind_some, if_true,
        (shows.drop 8).bytesToZero size found]
      rfl

theorem Shows.longText {shown : List UInt8} {textFollows : Bool} {size length : Nat}
    (shows : source.Shows place shown) (known : argumentLength? .longText textFollows shown = some length)
    (within : length ≤ shown.length) (opcode : Opcode) :
    source.argument size opcode .longText textFollows place =
      some (readArgument opcode .longText textFollows shown) := by
  rcases shown with _ | ⟨high, _ | ⟨low, rest⟩⟩
  · simp [argumentLength?] at known
  · simp [argumentLength?] at known
  · obtain rfl : 2 + (high.toNat * 256 + low.toNat) = length := by
      simpa [argumentLength?] using known
    have fits : high.toNat * 256 + low.toNat ≤ rest.length := by
      simp only [List.length_cons] at within
      omega
    obtain ⟨first, further⟩ := shows_cons.mp shows
    obtain ⟨second, further⟩ := shows_cons.mp further
    have read : readArgument opcode .longText textFollows (high :: low :: rest) =
        (.longText (rest.take (high.toNat * 256 + low.toNat)),
          2 + (high.toNat * 256 + low.toNat)) := by
      simp [readArgument, wordOf_pair]
    simp only [Source.argument, first, second, Option.bind_eq_bind, Option.bind_some,
      further.bytes fits, read]
    rfl

/-- Where the length of an argument is known, it is read from its bytes alone. -/
theorem Shows.argument {shown : List UInt8} {code : ArgumentCode} {textFollows : Bool}
    {size length : Nat} (shows : source.Shows place shown) (inside : place + shown.length ≤ size)
    (known : argumentLength? code textFollows shown = some length)
    (within : length ≤ shown.length) (opcode : Opcode) :
    source.argument size opcode code textFollows place =
      some (readArgument opcode code textFollows shown) := by
  have numberCase : (readGroups shown).map (·.2) = some length →
      ∃ read, source.groups size place 5 0 0 = some (some read) ∧ numberAtStart shown = read := by
    intro known
    obtain ⟨read, isRead, -⟩ := Option.map_eq_some_iff.mp known
    have shownHere : source.Shows (place + 0) shown := shows
    exact ⟨read, shownHere.groups inside isRead, by rw [numberAtStart, isRead, Option.getD_some]⟩
  cases code with
  | none => rfl
  | number | negativeNumber | indirectNumber =>
      obtain ⟨read, fromSource, fromBytes⟩ := numberCase known
      simp only [Source.argument, readArgument, fromSource, fromBytes, Option.bind_eq_bind,
        Option.bind_some, Option.getD_some]
      split <;> rfl
  | stack | indirectStack | localLabel =>
      obtain rfl : 1 = length := Option.some.inj known
      cases shown with
      | nil => simp at within
      | cons byte rest =>
          rw [Source.argument, (shows_cons.mp shows).1]
          rfl
  | text | indirectText =>
      cases shown with
      | nil => simp [argumentLength?] at known
      | cons byte rest =>
          obtain rfl : 1 + byte.toNat = length := by simpa [argumentLength?] using known
          have fits : byte.toNat ≤ rest.length := by
            simp only [List.length_cons] at within
            omega
          obtain ⟨first, further⟩ := shows_cons.mp shows
          simp only [Source.argument, first, Option.bind_eq_bind, Option.bind_some,
            further.bytes fits]
          rfl
  | double => exact shows.double inside known within opcode
  | longText => exact shows.longText known within opcode

/-- A source that has the bytes of a complete instruction is enough to read it. -/
theorem Shows.decode {chunk : List UInt8} {size : Nat} (shows : source.Shows place chunk)
    (inside : place + chunk.length ≤ size) (complete : IsComplete chunk) :
    source.decode size place = some ((Codec.decode chunk 0).movedBy place) := by
  obtain ⟨first, second, rest, opcode, code, argument, rfl, command, kind, known, length⟩ :=
    complete.parts
  obtain ⟨hasFirst, further⟩ := shows_cons.mp shows
  obtain ⟨hasSecond, further⟩ := shows_cons.mp further
  simp only [List.length_cons] at inside
  have behind : place + 1 + 1 + rest.length ≤ size := by omega
  have read := further.argument behind known (by omega) opcode
  simp only [Source.decode, hasFirst, hasSecond, command, kind, Option.getD_some,
    Option.bind_eq_bind, Option.bind_some, read, decode_parts command kind, cacheSize]
  split
  · simp [Decoded.movedBy, Nat.add_assoc]
  · rfl

end Source

/-! ## What is read where no byte is missing -/

section

variable {bytes : List UInt8} {place : Nat}

/-- Where a byte is, the bytes from there on are it and the rest. -/
theorem drop_of_getElem? {byte : UInt8} (here : bytes[place]? = some byte) :
    bytes.drop place = byte :: bytes.drop (place + 1) := by
  obtain ⟨inside, rfl⟩ := List.getElem?_eq_some_iff.mp here
  exact List.drop_eq_getElem_cons inside

namespace Source

/-- The groups of a number run out of bytes without harm. -/
theorem groups_getElem? (bytes : List UInt8) (place limit count : Nat) (start : UInt32) :
    groups (bytes[·]?) bytes.length place limit start count =
      some (readGroups.go limit start count (bytes.drop (place + count))) := by
  induction limit generalizing count start with
  | zero => simp [groups, readGroups.go]
  | succ limit ih =>
      rw [groups]
      by_cases inside : place + count < bytes.length
      · have here : bytes[place + count]? = some bytes[place + count] := List.getElem?_eq_getElem inside
        rw [if_pos inside, here, drop_of_getElem? here, readGroups.go]
        simp only [Option.bind_eq_bind, Option.bind_some]
        split
        · rfl
        · exact ih (count + 1) _
      · rw [if_neg inside, List.drop_eq_nil_of_le (by omega)]
        rfl

theorem bytes_getElem? {count : Nat} {text : List UInt8}
    (read : Source.bytes (bytes[·]?) place count = some text) : text = (bytes.drop place).take count := by
  induction count generalizing place text with
  | zero => simpa [Source.bytes] using read.symm
  | succ count ih =>
      simp only [Source.bytes, Option.bind_eq_bind, Option.bind_eq_some_iff, Option.pure_def,
        Option.some.injEq] at read
      obtain ⟨byte, here, rest, behind, rfl⟩ := read
      rw [drop_of_getElem? here, List.take_succ_cons, ih behind]

theorem bytesToZero_getElem? {size : Nat} {text : List UInt8}
    (read : Source.bytesToZero (bytes[·]?) size place = some text) :
    text = (bytes.drop place).takeWhile (· ≠ 0) := by
  fun_induction Source.bytesToZero (bytes[·]?) size place generalizing text with
  | case1 place inside ih =>
      simp only [Option.bind_eq_bind, Option.bind_eq_some_iff] at read
      obtain ⟨byte, here, read⟩ := read
      rw [drop_of_getElem? here]
      split at read
      · next zero => simpa [zero] using (Option.some.inj read).symm
      · next nonzero =>
          simp only [Option.bind_eq_some_iff, Option.pure_def, Option.some.injEq] at read
          obtain ⟨rest, behind, rfl⟩ := read
          rw [List.takeWhile_cons_of_pos (by simpa using nonzero), ← ih behind]
  | case2 => cases read

/-- An argument of which no byte is missing is read alike from its bytes. -/
theorem argument_getElem? {opcode : Opcode} {code : ArgumentCode} {textFollows : Bool}
    {result : Argument × Nat}
    (read : Source.argument (bytes[·]?) bytes.length opcode code textFollows place = some result) :
    result = readArgument opcode code textFollows (bytes.drop place) := by
  cases code with
  | none => exact (Option.some.inj read).symm
  | number | negativeNumber | indirectNumber =>
      have same : (readGroups.go 5 0 0 (bytes.drop (place + 0))).getD (0, bytes.length - place) =
          numberAtStart (bytes.drop place) := by
        rw [numberAtStart, List.length_drop]
        rfl
      simp only [Source.argument, groups_getElem?, Option.bind_eq_bind, Option.bind_some, same] at read
      rw [readArgument]
      split at read <;> simp_all
  | stack | indirectStack | localLabel =>
      simp only [Source.argument, Option.bind_eq_bind, Option.bind_eq_some_iff, Option.pure_def,
        Option.some.injEq] at read
      obtain ⟨letter, here, rfl⟩ := read
      rw [drop_of_getElem? here]
      rfl
  | text | indirectText =>
      simp only [Source.argument, Option.bind_eq_bind, Option.bind_eq_some_iff, Option.pure_def,
        Option.some.injEq] at read
      obtain ⟨length, here, text, behind, rfl⟩ := read
      rw [drop_of_getElem? here, bytes_getElem? behind]
      rfl
  | double =>
      simp only [Source.argument, Option.bind_eq_bind, Option.bind_eq_some_iff] at read
      obtain ⟨value, here, read⟩ := read
      obtain rfl := bytes_getElem? here
      cases textFollows with
      | false => exact (Option.some.inj read).symm
      | true =>
          simp only [if_true, Option.bind_eq_some_iff, Option.pure_def, Option.some.injEq] at read
          obtain ⟨text, behind, rfl⟩ := read
          rw [bytesToZero_getElem? behind, readArgument, if_pos rfl, List.drop_drop]
  | longText =>
      simp only [Source.argument, Option.bind_eq_bind, Option.bind_eq_some_iff, Option.pure_def,
        Option.some.injEq] at read
      obtain ⟨high, here, low, next, text, behind, rfl⟩ := read
      rw [drop_of_getElem? here, drop_of_getElem? next, bytes_getElem? behind]
      simp [readArgument, wordOf_pair]

end Source

/-- An instruction of which no byte is missing is the one that `decode` gives. -/
theorem decode_of_decode? {decoded : Decoded} (read : decode? bytes place = some decoded) :
    decode bytes place = decoded := by
  simp only [decode?, Source.decode, Option.bind_eq_bind, Option.bind_eq_some_iff] at read
  obtain ⟨second, next, first, here, ⟨argument, length⟩, behind, read⟩ := read
  have isRead := Source.argument_getElem? behind
  rw [decode, drop_of_getElem? here, drop_of_getElem? next]
  simp only [List.headD_cons, List.drop_succ_cons, List.drop_zero, ← isRead]
  split at read
  · next caches => simpa [caches] using read
  · next plain => simpa [plain] using read

end

/-! ## Instructions that are complete where they stand -/

variable {bytes : List UInt8} {address length : Nat}

/-- Where the length of an instruction is known, the text is cut into what is in front of it, its bytes and
what is behind. -/
theorem exists_cut_of_length? (known : length? bytes address = some length) :
    ∃ before chunk after, bytes = before ++ chunk ++ after ∧ before.length = address ∧
      chunk.length = length ∧ IsComplete chunk := by
  have fits := le_length_of_lengthAtStart? known
  have size : ((bytes.drop address).take length).length = length := List.length_take_of_le fits
  have complete := lengthAtStart?_take known
  have positive : 0 < length := by
    obtain ⟨first, second, rest, opcode, code, argument, -, -, -, -, -, rfl⟩ :=
      lengthAtStart?_eq_some.mp known
    omega
  rw [List.length_drop] at fits
  refine ⟨bytes.take address, (bytes.drop address).take length, bytes.drop (address + length), ?_,
    List.length_take_of_le (by omega), size, ?_⟩
  · rw [← List.drop_drop, List.append_assoc, List.take_append_drop, List.take_append_drop]
  · rw [IsComplete, size]
    exact complete

theorem Source.shows_getElem? (before chunk after : List UInt8) :
    Source.Shows ((before ++ chunk ++ after)[·]?) before.length chunk := by
  intro offset within
  simp only [List.append_assoc]
  rw [List.getElem?_append_right (by omega), Nat.add_sub_cancel_left,
    List.getElem?_append_left within]

/-- A complete instruction is read where it stands. -/
theorem IsComplete.decode?_append {chunk : List UInt8} (complete : IsComplete chunk)
    (before after : List UInt8) :
    decode? (before ++ chunk ++ after) before.length =
      some ((Codec.decode chunk 0).movedBy before.length) := by
  have inside : before.length + chunk.length ≤ (before ++ chunk ++ after).length := by
    simp only [List.length_append]
    omega
  exact (Source.shows_getElem? before chunk after).decode inside complete

theorem Source.shows_window (before chunk after : List UInt8) :
    Source.Shows (window (before ++ chunk ++ after) before.length (before.length + chunk.length))
      before.length chunk := by
  intro offset within
  rw [window, if_pos ⟨by omega, by omega⟩]
  exact shows_getElem? before chunk after offset within

/-- Where the validator finds the length of an instruction, the reading stays in these bytes, gives the
same length, and the cache is the last of them. -/
theorem decode_of_length? (known : length? bytes address = some length) :
    2 ≤ length ∧ address + length ≤ bytes.length ∧
      (window bytes address (address + length)).decode bytes.length address =
        some (decode bytes address) ∧
      (decode bytes address).length = length ∧
      ∀ place, (decode bytes address).cache = some place →
        place + cacheLength = address + length := by
  obtain ⟨before, chunk, after, rfl, rfl, rfl, complete⟩ := exists_cut_of_length? known
  have inside : before.length + chunk.length ≤ (before ++ chunk ++ after).length := by
    simp only [List.length_append]
    omega
  have read := complete.decode_append before after
  have fromWindow := (Source.shows_window before chunk after).decode inside complete
  rw [read, Decoded.movedBy_length, Decoded.movedBy_cache, complete.decode_length]
  refine ⟨?_, inside, fromWindow, rfl, fun place cache => ?_⟩
  · obtain ⟨first, second, rest, -, -, -, rfl, -⟩ := complete.parts
    simp
  · obtain ⟨inChunk, here, rfl⟩ := Option.map_eq_some_iff.mp cache
    have atEnd := (complete.cache_at_end here).2
    omega

end Keystroke.Codec
