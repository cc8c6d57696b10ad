import Keystroke.Proofs.Arguments

/-!
# Complete instructions

Bytes that are one complete instruction stay one wherever they stand: neither what is in front of them
nor what is behind changes how they are read. What is written for an instruction is complete, and no
shorter start of it is.
-/

namespace Keystroke

/-! ## The numbers of commands -/

namespace Opcode

theorem code_lt (opcode : Opcode) : opcode.code < 388 := by
  cases opcode <;> exact Nat.le_of_ble_eq_true rfl

theorem map_code_all : all.toList.map code = List.range 388 := by
  decide +kernel

theorem code_injective {first second : Opcode} (same : first.code = second.code) :
    first = second := by
  rw [← Opcode.ofNat_ctorIdx first, ← Opcode.ofNat_ctorIdx second]
  exact congrArg Opcode.ofNat same

/-- A command is found by its number. -/
theorem ofCode?_code (opcode : Opcode) : ofCode? opcode.code = some opcode := by
  have size : all.size = 388 := by
    simpa using congrArg List.length map_code_all
  have within : opcode.code < all.size := size ▸ code_lt opcode
  have listed : all[opcode.code].code = opcode.code := by
    have entries := congrArg (fun codes => codes[opcode.code]?) map_code_all
    simpa [within, code_lt opcode] using entries
  rw [ofCode?, Array.getElem?_eq_getElem within, code_injective listed]

end Opcode

namespace Instruction

/-- Number literals are the arguments of the number command and of no other. -/
def IsTyped (instruction : Instruction) : Prop :=
  instruction.opcode = .number ↔ instruction.argument.isLiteral

instance (instruction : Instruction) : Decidable instruction.IsTyped :=
  inferInstanceAs (Decidable (instruction.opcode = .number ↔ instruction.argument.isLiteral = true))

/-- Whether an instruction is a jump inside its program, to a number or a letter. -/
def isLocalJump (instruction : Instruction) : Bool :=
  instruction.opcode.hasTargetCache &&
    match instruction.argument with
    | .direct (.number _) | .localLabel _ => true
    | _ => false

/-- Whether an instruction is a jump with a negative whole number in the place of a label. It is stored
like a jump to that number without its sign, but without a jump cache. -/
def isNegativeJump (instruction : Instruction) : Bool :=
  instruction.opcode.hasTargetCache &&
    match instruction.argument with
    | .literal value none => (Codec.smallInteger? value).any (· < 0)
    | _ => false

theorem isNegativeJump_of_typed {instruction : Instruction} (typed : instruction.IsTyped) :
    instruction.isNegativeJump = false := by
  obtain ⟨opcode, argument⟩ := instruction
  cases plain : argument.isLiteral with
  | true =>
      have number : opcode = .number := typed.mpr plain
      simp [isNegativeJump, number, Opcode.hasTargetCache]
  | false => cases argument <;> simp_all [isNegativeJump, Argument.isLiteral]

end Instruction

namespace Codec

/-! ## The header -/

/-- The second header byte holds three fields that do not touch one another. -/
theorem header_fields (page : Nat) (small : page < 8) (code : ArgumentCode) (textFollows : Bool) :
    let second := (page * 16).toUInt8 ||| code.bits ||| (if textFollows then textMark else 0)
    (second >>> 4 &&& 7).toNat = page ∧ ArgumentCode.ofHeader? second = some code ∧
      (second &&& textMark != 0) = textFollows := by
  revert page
  cases code <;> cases textFollows <;> decide

/-- The header gives back the command, the kind of argument and whether a text follows. -/
theorem header_eq (opcode : Opcode) (code : ArgumentCode) (textFollows : Bool) :
    ∃ first second, header opcode code textFollows = [first, second] ∧
      headerOpcode? first second = some opcode ∧ ArgumentCode.ofHeader? second = some code ∧
      (second &&& textMark != 0) = textFollows := by
  have bound := opcode.code_lt
  obtain ⟨page, kind, follows⟩ :=
    header_fields (opcode.code / 256 % 8) (by omega) code textFollows
  refine ⟨_, _, rfl, ?_, kind, follows⟩
  have number : opcode.code.toUInt8.toNat + opcode.code / 256 % 8 * 256 = opcode.code := by
    rw [Nat.toUInt8, UInt8.toNat_ofNat']
    omega
  rw [headerOpcode?, page, number, Opcode.ofCode?_code]

/-! ## What stands around an instruction -/

theorem lengthToZero?_some {bytes : List UInt8} {length : Nat}
    (found : lengthToZero? bytes = some length) (rest : List UInt8) :
    lengthToZero? (bytes ++ rest) = some length ∧
      (bytes ++ rest).takeWhile (· ≠ 0) = bytes.takeWhile (· ≠ 0) ∧
      (bytes.takeWhile (· ≠ 0)).length + 1 = length := by
  induction bytes generalizing length with
  | nil => simp [lengthToZero?] at found
  | cons byte bytes ih =>
      rw [lengthToZero?] at found
      rw [List.cons_append, lengthToZero?]
      by_cases zero : byte = 0
      · obtain rfl : 1 = length := by simpa [zero] using found
        simp [zero]
      · rw [if_neg zero, Option.map_eq_some_iff] at found
        obtain ⟨behind, foundBehind, rfl⟩ := found
        obtain ⟨same, text, length⟩ := ih foundBehind
        simp only [ne_eq, decide_not] at text length
        simp [zero, same, text, length]

/-- Where the length of an argument is known, bytes behind it change nothing, and as many bytes are
read. -/
theorem argument_append {code : ArgumentCode} {textFollows : Bool} {bytes : List UInt8}
    {length : Nat} (known : argumentLength? code textFollows bytes = some length)
    (within : length ≤ bytes.length) (opcode : Opcode) (rest : List UInt8) :
    argumentLength? code textFollows (bytes ++ rest) = some length ∧
      readArgument opcode code textFollows (bytes ++ rest) =
        readArgument opcode code textFollows bytes ∧
      (readArgument opcode code textFollows bytes).2 = length := by
  have numberCase : (readGroups bytes).map (·.2) = some length →
      (readGroups (bytes ++ rest)).map (·.2) = some length ∧
        numberAtStart (bytes ++ rest) = numberAtStart bytes ∧
        (numberAtStart bytes).2 = length := by
    intro known
    obtain ⟨⟨number, total⟩, read, rfl⟩ := Option.map_eq_some_iff.mp known
    simp [numberAtStart, read, (readGroups_append read rest).1]
  cases code with
  | none => simpa [argumentLength?, readArgument] using known
  | number | negativeNumber | indirectNumber =>
      obtain ⟨same, number, total⟩ := numberCase known
      exact ⟨same, by simp only [readArgument, number], by simp only [readArgument, total]⟩
  | stack | indirectStack | localLabel =>
      obtain rfl : 1 = length := Option.some.inj known
      cases bytes with
      | nil => simp at within
      | cons byte bytes => simp [argumentLength?, readArgument, registerAtStart]
  | text | indirectText =>
      cases bytes with
      | nil => simp [argumentLength?] at known
      | cons byte bytes =>
          obtain rfl : 1 + byte.toNat = length := by simpa [argumentLength?] using known
          have fits : byte.toNat ≤ bytes.length := by
            simp only [List.length_cons] at within
            omega
          simp [argumentLength?, readArgument, textAtStart, List.take_append_of_le_length fits]
  | double =>
      have eight : 8 ≤ bytes.length := by
        cases textFollows with
        | false =>
            obtain rfl : 8 = length := by simpa [argumentLength?] using known
            exact within
        | true =>
            rw [argumentLength?, if_pos rfl, Option.map_eq_some_iff] at known
            obtain ⟨behind, -, rfl⟩ := known
            omega
      cases textFollows with
      | false =>
          obtain rfl : 8 = length := by simpa [argumentLength?] using known
          simp [argumentLength?, readArgument, List.take_append_of_le_length eight]
      | true =>
          rw [argumentLength?, if_pos rfl, Option.map_eq_some_iff] at known
          obtain ⟨behind, found, rfl⟩ := known
          obtain ⟨same, text, size⟩ := lengthToZero?_some found rest
          refine ⟨?_, ?_, ?_⟩
          · rw [argumentLength?, if_pos rfl, List.drop_append_of_le_length eight, same]
            rfl
          · simp only [readArgument, if_true, List.drop_append_of_le_length eight, text,
              List.take_append_of_le_length eight]
          · simp only [readArgument, if_true]
            omega
  | longText =>
      rcases bytes with _ | ⟨high, _ | ⟨low, bytes⟩⟩
      · simp [argumentLength?] at known
      · simp [argumentLength?] at known
      · obtain rfl : 2 + (high.toNat * 256 + low.toNat) = length := by
          simpa [argumentLength?] using known
        have fits : high.toNat * 256 + low.toNat ≤ bytes.length := by
          simp only [List.length_cons] at within
          omega
        simp [argumentLength?, readArgument, wordOf_pair, List.take_append_of_le_length fits]

theorem lengthToZero?_take {bytes : List UInt8} {length : Nat}
    (found : lengthToZero? bytes = some length) :
    lengthToZero? (bytes.take length) = some length := by
  induction bytes generalizing length with
  | nil => simp [lengthToZero?] at found
  | cons byte bytes ih =>
      rw [lengthToZero?] at found
      by_cases zero : byte = 0
      · obtain rfl : 1 = length := by simpa [zero] using found
        simp [lengthToZero?, zero]
      · rw [if_neg zero, Option.map_eq_some_iff] at found
        obtain ⟨behind, foundBehind, rfl⟩ := found
        rw [List.take_succ_cons, lengthToZero?, if_neg zero, ih foundBehind, Option.map_some]

/-- The bytes of an argument are all that is needed to find its length. -/
theorem argumentLength?_take {code : ArgumentCode} {textFollows : Bool} {bytes : List UInt8}
    {length : Nat} (known : argumentLength? code textFollows bytes = some length) :
    argumentLength? code textFollows (bytes.take length) = some length := by
  cases code with
  | none | stack | indirectStack | localLabel => exact known
  | number | negativeNumber | indirectNumber =>
      obtain ⟨⟨number, total⟩, read, rfl⟩ := Option.map_eq_some_iff.mp known
      simp [argumentLength?, readGroups_take read]
  | text | indirectText =>
      cases bytes with
      | nil => simp [argumentLength?] at known
      | cons byte bytes =>
          obtain rfl : 1 + byte.toNat = length := by simpa [argumentLength?] using known
          simp [argumentLength?, Nat.add_comm 1]
  | double =>
      cases textFollows with
      | false => exact known
      | true =>
          rw [argumentLength?, if_pos rfl, Option.map_eq_some_iff] at known
          obtain ⟨behind, found, rfl⟩ := known
          rw [argumentLength?, if_pos rfl, List.drop_take, Nat.add_sub_cancel_left,
            lengthToZero?_take found, Option.map_some]
  | longText =>
      rcases bytes with _ | ⟨high, _ | ⟨low, bytes⟩⟩
      · simp [argumentLength?] at known
      · simp [argumentLength?] at known
      · obtain rfl : 2 + (high.toNat * 256 + low.toNat) = length := by
          simpa [argumentLength?] using known
        simp [argumentLength?, Nat.add_comm 2]

/-- The size of the jump cache behind an argument. -/
def cacheSize (opcode : Opcode) (code : ArgumentCode) : Nat :=
  if cachesTarget opcode code then cacheLength else 0

/-- A complete instruction is its two header bytes, an argument that ends, and room for a cache. -/
theorem lengthAtStart?_eq_some {bytes : List UInt8} {length : Nat} :
    lengthAtStart? bytes = some length ↔
      ∃ first second rest opcode code argument,
        bytes = first :: second :: rest ∧ headerOpcode? first second = some opcode ∧
          ArgumentCode.ofHeader? second = some code ∧
          argumentLength? code (second &&& textMark != 0) rest = some argument ∧
          argument + cacheSize opcode code ≤ rest.length ∧
          length = 2 + argument + cacheSize opcode code := by
  match bytes with
  | [] => simp [lengthAtStart?]
  | [_] => simp [lengthAtStart?]
  | first :: second :: rest =>
      simp only [lengthAtStart?, Option.bind_eq_bind, Option.bind_eq_some_iff, List.cons.injEq]
      constructor
      · rintro ⟨opcode, command, code, kind, argument, known, complete⟩
        change (if argument + cacheSize opcode code ≤ rest.length then
          some (2 + argument + cacheSize opcode code) else none) = some length at complete
        split at complete
        · next fits =>
            exact ⟨first, second, rest, opcode, code, argument, ⟨rfl, rfl, rfl⟩, command, kind,
              known, fits, (Option.some.inj complete).symm⟩
        · cases complete
      · rintro ⟨_, _, _, opcode, code, argument, ⟨rfl, rfl, rfl⟩, command, kind, known, fits, rfl⟩
        exact ⟨opcode, command, code, kind, argument, known, if_pos fits⟩

/-- A complete instruction at the start stays one when bytes are put behind it. -/
theorem lengthAtStart?_append {bytes : List UInt8} {length : Nat}
    (known : lengthAtStart? bytes = some length) (after : List UInt8) :
    lengthAtStart? (bytes ++ after) = some length := by
  obtain ⟨first, second, rest, opcode, code, argument, rfl, command, kind, argumentKnown, fits,
    rfl⟩ := lengthAtStart?_eq_some.mp known
  obtain ⟨same, -, -⟩ := argument_append argumentKnown (by omega) opcode after
  refine lengthAtStart?_eq_some.mpr
    ⟨first, second, rest ++ after, opcode, code, argument, rfl, command, kind, same, ?_, rfl⟩
  rw [List.length_append]
  omega

/-- The bytes of a complete instruction are all that is needed to find its end. -/
theorem lengthAtStart?_take {bytes : List UInt8} {length : Nat}
    (known : lengthAtStart? bytes = some length) :
    lengthAtStart? (bytes.take length) = some length := by
  obtain ⟨first, second, rest, opcode, code, argument, rfl, command, kind, argumentKnown, fits,
    rfl⟩ := lengthAtStart?_eq_some.mp known
  have same := argumentLength?_take argumentKnown
  have more := argument_append same (by simp; omega) opcode
    ((rest.take (argument + cacheSize opcode code)).drop argument)
  have again : rest.take argument ++ (rest.take (argument + cacheSize opcode code)).drop argument =
      rest.take (argument + cacheSize opcode code) := by
    rw [List.drop_take, Nat.add_sub_cancel_left, List.take_add]
  rw [again] at more
  refine lengthAtStart?_eq_some.mpr ⟨first, second, rest.take (argument + cacheSize opcode code),
    opcode, code, argument, ?_, command, kind, more.1, ?_, rfl⟩
  · have twoMore : 2 + argument + cacheSize opcode code =
        argument + cacheSize opcode code + 1 + 1 := by omega
    rw [twoMore, List.take_succ_cons, List.take_succ_cons]
  · simp
    omega

theorem le_length_of_lengthAtStart? {bytes : List UInt8} {length : Nat}
    (known : lengthAtStart? bytes = some length) : length ≤ bytes.length := by
  obtain ⟨first, second, rest, opcode, code, argument, rfl, -, -, -, fits, rfl⟩ :=
    lengthAtStart?_eq_some.mp known
  simp only [List.length_cons]
  omega

/-! ## Complete instructions -/

/-- Bytes that are one complete instruction. -/
def IsComplete (chunk : List UInt8) : Prop := length? chunk 0 = some chunk.length

instance (chunk : List UInt8) : Decidable (IsComplete chunk) :=
  inferInstanceAs (Decidable (length? chunk 0 = some chunk.length))

/-- An instruction that was read, counted from further in front. -/
def Decoded.movedBy (decoded : Decoded) (distance : Nat) : Decoded :=
  { decoded with cache := decoded.cache.map (distance + ·) }

@[simp]
theorem Decoded.movedBy_instruction (decoded : Decoded) (distance : Nat) :
    (decoded.movedBy distance).instruction = decoded.instruction :=
  rfl

@[simp]
theorem Decoded.movedBy_length (decoded : Decoded) (distance : Nat) :
    (decoded.movedBy distance).length = decoded.length :=
  rfl

@[simp]
theorem Decoded.movedBy_cache (decoded : Decoded) (distance : Nat) :
    (decoded.movedBy distance).cache = decoded.cache.map (distance + ·) :=
  rfl

theorem length?_append_left (before bytes : List UInt8) :
    length? (before ++ bytes) before.length = length? bytes 0 := by
  simp [length?]

/-- Bytes in front of an instruction only move its cache. -/
theorem decode_append_left (before bytes : List UInt8) :
    decode (before ++ bytes) before.length = (decode bytes 0).movedBy before.length := by
  have here : (before ++ bytes).drop before.length = bytes.drop 0 := by simp
  simp only [decode, here]
  split
  · simp [Decoded.movedBy, Nat.add_assoc]
  · rfl

/-- The parts of a complete instruction are what is read. -/
theorem decode_parts {first second : UInt8} {rest : List UInt8} {opcode : Opcode}
    {code : ArgumentCode} (command : headerOpcode? first second = some opcode)
    (kind : ArgumentCode.ofHeader? second = some code) :
    decode (first :: second :: rest) 0 =
      let read := readArgument opcode code (second &&& textMark != 0) rest
      ⟨⟨opcode, read.1⟩, 2 + read.2 + cacheSize opcode code,
        if cachesTarget opcode code then some (2 + read.2) else none⟩ := by
  simp only [decode, List.drop_zero, List.headD_cons, List.drop_succ_cons, command, kind,
    Option.getD_some, cacheSize]
  split <;> simp

namespace IsComplete

variable {chunk : List UInt8}

/-- A complete instruction in its parts. -/
theorem parts (complete : IsComplete chunk) :
    ∃ first second rest opcode code argument,
      chunk = first :: second :: rest ∧ headerOpcode? first second = some opcode ∧
        ArgumentCode.ofHeader? second = some code ∧
        argumentLength? code (second &&& textMark != 0) rest = some argument ∧
        rest.length = argument + cacheSize opcode code := by
  obtain ⟨first, second, rest, opcode, code, argument, rfl, command, kind, known, -, length⟩ :=
    lengthAtStart?_eq_some.mp (complete : lengthAtStart? chunk = some chunk.length)
  refine ⟨first, second, rest, opcode, code, argument, rfl, command, kind, known, ?_⟩
  simp only [List.length_cons] at length
  omega

/-- The length of a complete instruction is found wherever it stands. -/
theorem length?_append (complete : IsComplete chunk) (before after : List UInt8) :
    length? (before ++ chunk ++ after) before.length = some chunk.length := by
  rw [List.append_assoc, length?_append_left]
  exact lengthAtStart?_append complete after

/-- A complete instruction is read alike wherever it stands. -/
theorem decode_append (complete : IsComplete chunk) (before after : List UInt8) :
    decode (before ++ chunk ++ after) before.length = (decode chunk 0).movedBy before.length := by
  rw [List.append_assoc, decode_append_left]
  obtain ⟨first, second, rest, opcode, code, argument, rfl, command, kind, known, length⟩ :=
    complete.parts
  obtain ⟨-, same, -⟩ := argument_append known (by omega) opcode after
  rw [List.cons_append, List.cons_append, decode_parts command kind, decode_parts command kind,
    same]

theorem decode_length (complete : IsComplete chunk) : (decode chunk 0).length = chunk.length := by
  obtain ⟨first, second, rest, opcode, code, argument, rfl, command, kind, known, length⟩ :=
    complete.parts
  obtain ⟨-, -, count⟩ := argument_append known (by omega) opcode []
  rw [decode_parts command kind]
  simp only [count, List.length_cons]
  omega

theorem length_pos (complete : IsComplete chunk) : 0 < chunk.length := by
  obtain ⟨first, second, rest, -, -, -, rfl, -⟩ := complete.parts
  simp

/-- No proper start of a complete instruction is complete. -/
theorem length?_of_prefix (complete : IsComplete chunk) {start : List UInt8}
    (isStart : start <+: chunk) (proper : start ≠ chunk) (before : List UInt8) :
    length? (before ++ start) before.length = none := by
  obtain ⟨missing, rfl⟩ := isStart
  rw [length?_append_left, Option.eq_none_iff_forall_not_mem]
  intro length known
  have atStart : lengthAtStart? start = some length := known
  have within := le_length_of_lengthAtStart? atStart
  have same : length = (start ++ missing).length :=
    Option.some.inj ((lengthAtStart?_append atStart missing).symm.trans complete)
  apply proper
  rw [List.length_append] at same
  rw [List.eq_nil_of_length_eq_zero (by omega : missing.length = 0), List.append_nil]

end IsComplete

/-! ## Written instructions -/

/-- What is written for an instruction, in its parts. -/
theorem encode_eq_ok {instruction : Instruction} {bytes : List UInt8}
    (encoded : encode instruction = .ok bytes) :
    ∃ code textFollows argument,
      argumentBytes instruction.argument = .ok (code, textFollows, argument) ∧
        bytes = header instruction.opcode code textFollows ++ argument ++
          (if cachesTarget instruction.opcode code then emptyCache else []) := by
  cases written : argumentBytes instruction.argument with
  | error error => simp [encode, written, bind, Except.bind] at encoded
  | ok parts =>
      obtain ⟨code, textFollows, argument⟩ := parts
      simp only [encode, written, bind, Except.bind] at encoded
      refine ⟨code, textFollows, argument, rfl, ?_⟩
      generalize (if cachesTarget instruction.opcode code then emptyCache else []) = cache
        at encoded ⊢
      split at encoded
      · cases encoded
      · exact (Except.ok.inj encoded).symm

/-- What is written for an instruction fits a field with a length of four bytes. -/
theorem encode_length_lt {instruction : Instruction} {bytes : List UInt8}
    (encoded : encode instruction = .ok bytes) : bytes.length < 0x100000000 := by
  obtain ⟨code, textFollows, argument, written, isBytes⟩ := encode_eq_ok encoded
  by_cases isLong : code = .longText
  · -- The length of a long text stands in front of it, in two bytes.
    subst isLong
    have known := (readsBack_argument written instruction.opcode).length []
    have bounded : argument.length ≤ 2 + (255 * 256 + 255) := by
      simp only [argumentLength?] at known
      split at known
      next high low rest _ =>
        have := high.toNat_lt
        have := low.toNat_lt
        have := Option.some.inj known
        omega
      · cases known
    rw [isBytes, header, List.length_append, List.length_append, List.length_cons, List.length_cons]
    split <;> simp [emptyCache, cacheLength] <;> omega
  · rw [isBytes] at encoded ⊢
    simp only [encode, written, bind, Except.bind] at encoded
    generalize (if cachesTarget instruction.opcode code then emptyCache else []) = cache
      at encoded ⊢
    split at encoded
    · cases encoded
    next short =>
      have bounded := not_and.mp short isLong
      simp only [maximalLength] at bounded
      omega

/-- What is written for an instruction is complete and gives it back as far as its command allows. -/
theorem decode_encode {instruction : Instruction} {bytes : List UInt8}
    (encoded : encode instruction = .ok bytes) :
    ∃ code textFollows argument,
      argumentBytes instruction.argument = .ok (code, textFollows, argument) ∧
        (cachesTarget instruction.opcode code → emptyCache <:+ bytes) ∧ IsComplete bytes ∧
        decode bytes 0 =
          ⟨⟨instruction.opcode, storedArgument instruction.opcode instruction.argument⟩,
            bytes.length,
            if cachesTarget instruction.opcode code then some (bytes.length - cacheLength)
            else none⟩ := by
  obtain ⟨code, textFollows, argument, written, rfl⟩ := encode_eq_ok encoded
  have endsWithCache : cachesTarget instruction.opcode code → emptyCache <:+
      header instruction.opcode code textFollows ++ argument ++
        (if cachesTarget instruction.opcode code then emptyCache else []) := by
    intro caches
    rw [if_pos caches]
    exact List.suffix_append _ _
  obtain ⟨first, second, headerEq, command, kind, rfl⟩ :=
    header_eq instruction.opcode code textFollows
  have back := readsBack_argument written instruction.opcode
  have cache : (if cachesTarget instruction.opcode code then emptyCache else []).length =
      cacheSize instruction.opcode code := by
    unfold cacheSize
    split <;> rfl
  generalize (if cachesTarget instruction.opcode code then emptyCache else []) = cacheBytes
    at cache endsWithCache
  refine ⟨code, _, argument, written, endsWithCache, ?_, ?_⟩
  · refine lengthAtStart?_eq_some.mpr ⟨first, second, argument ++ cacheBytes, instruction.opcode,
      code, argument.length, ?_, command, kind, back.length cacheBytes, ?_, ?_⟩
    · simp [headerEq]
    · simp [cache]
    · simp [headerEq, cache]
      omega
  · rw [headerEq, List.append_assoc, List.cons_append, List.cons_append, List.nil_append,
      decode_parts command kind, back.read]
    simp only [List.length_cons, List.length_append, cache, cacheSize]
    split <;> simp <;> omega

/-- Whether a line is a global label does not change when it is stored. -/
theorem isGlobalLabel_storedArgument (opcode : Opcode) (argument : Argument) :
    (⟨opcode, storedArgument opcode argument⟩ : Instruction).isGlobalLabel =
      (⟨opcode, argument⟩ : Instruction).isGlobalLabel := by
  have noText : ∀ argument : Argument, (∀ bytes, argument ≠ .direct (.text bytes)) →
      (⟨opcode, argument⟩ : Instruction).isGlobalLabel = false := by
    intro argument other
    unfold Instruction.isGlobalLabel
    split
    · next bytes isLabel => exact (other bytes (Instruction.mk.inj isLabel).2).elim
    · rfl
  have number : ∀ plain magnitude isNegative, (∀ bytes, plain ≠ .direct (.text bytes)) →
      (⟨opcode, numberRead opcode plain magnitude isNegative⟩ : Instruction).isGlobalLabel =
        false := by
    intro plain magnitude isNegative other
    rw [numberRead]
    split
    · exact noText _ (by simp)
    · exact noText _ other
  cases argument with
  | direct operand | indirect operand =>
      cases operand with
      | number plain => rw [storedArgument, number _ _ _ (by simp), noText _ (by simp)]
      | stack register | text bytes => rfl
  | literal value text =>
      rw [noText (.literal value text) (by simp)]
      cases text with
      | some text => exact noText _ (by simp [storedArgument])
      | none =>
          rw [storedArgument]
          split
          · exact number _ _ _ (by simp)
          · exact noText _ (by simp)
  | none | localLabel letter | longText bytes => rfl

end Codec

end Keystroke
