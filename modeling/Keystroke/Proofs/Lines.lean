import Keystroke.Program
import Keystroke.Proofs.Instructions

/-!
# Lines of programs

A walk through complete instructions that stand behind one another finds exactly these instructions.
So a program is the list of its lines, and its addresses are the sums of their lengths.
-/

namespace Keystroke

namespace Program

/-! ## Walks -/

/-- Complete instructions that stand behind one another from an address on, as a walk finds them. -/
def placed : Nat → List (List UInt8) → List (Nat × Codec.Decoded)
  | _, [] => []
  | address, chunk :: rest =>
    (address, (Codec.decode chunk 0).movedBy address) :: placed (address + chunk.length) rest

/-- A walk finds the instructions that stand behind one another. -/
theorem linesFrom_flatten {chunks : List (List UInt8)}
    (complete : ∀ chunk ∈ chunks, Codec.IsComplete chunk) (before : List UInt8) :
    linesFrom (before ++ chunks.flatten) before.length = placed before.length chunks := by
  induction chunks generalizing before with
  | nil => simp [linesFrom, placed]
  | cons chunk chunks ih =>
      have first := complete chunk (by simp)
      have rest := ih (fun chunk member => complete chunk (by simp [member])) (before ++ chunk)
      have positive := first.length_pos
      have read := first.decode_append before chunks.flatten
      rw [List.append_assoc, List.length_append] at rest
      rw [List.append_assoc] at read
      rw [List.flatten_cons, linesFrom, if_pos (by simp; omega), read,
        Codec.Decoded.movedBy_length, first.decode_length, rest]
      rfl

theorem placed_append (address : Nat) (front back : List (List UInt8)) :
    placed address (front ++ back) =
      placed address front ++ placed (address + front.flatten.length) back := by
  induction front generalizing address with
  | nil => simp [placed]
  | cons chunk front ih =>
      simp [placed, ih, Nat.add_assoc]

theorem map_instruction_placed (address : Nat) (chunks : List (List UInt8)) :
    (placed address chunks).map (·.2.instruction) =
      chunks.map fun chunk => (Codec.decode chunk 0).instruction := by
  induction chunks generalizing address with
  | nil => rfl
  | cons chunk chunks ih => simp [placed, ih]

/-- The steps of a walk by the lengths of instructions end where the instructions end. -/
theorem iterate_length {chunks : List (List UInt8)}
    (complete : ∀ chunk ∈ chunks, Codec.IsComplete chunk) (before : List UInt8) :
    (fun address => address + Codec.length (before ++ chunks.flatten) address)^[chunks.length]
      before.length = (before ++ chunks.flatten).length := by
  induction chunks generalizing before with
  | nil => simp
  | cons chunk chunks ih =>
      have first := complete chunk (by simp)
      have rest := ih (fun chunk member => complete chunk (by simp [member])) (before ++ chunk)
      have known := first.length?_append before chunks.flatten
      have step : Codec.length (before ++ (chunk :: chunks).flatten) before.length =
          chunk.length := by
        rw [Codec.length, List.flatten_cons, ← List.append_assoc, known, Option.getD_some]
      rw [List.length_cons, Function.iterate_succ_apply, step]
      simpa [List.append_assoc] using rest

end Program

namespace Codec

/-- Bytes that stand for an instruction at every offset and end where the instruction ends. -/
structure SelfDelimiting (instruction : Instruction) (bytes : List UInt8) : Prop where
  decode_eq (before after : List UInt8) :
    decode (before ++ bytes ++ after) before.length =
      ⟨instruction, bytes.length,
        if instruction.isLocalJump then some (before.length + bytes.length - 4) else none⟩
  length?_eq (before after : List UInt8) :
    length? (before ++ bytes ++ after) before.length = some bytes.length
  length_eq (before after : List UInt8) :
    length (before ++ bytes ++ after) before.length = bytes.length
  readCache_eq (before after : List UInt8) : instruction.isLocalJump →
    readCache (before ++ bytes ++ after) (before.length + bytes.length - 4) = none
  length?_start (before start : List UInt8) : start <+: bytes → start ≠ bytes →
    length? (before ++ start) before.length = none

/-- The kind of argument that is written for an argument other than a literal. -/
def argumentCode : Argument → ArgumentCode
  | .none | .literal _ _ => .none
  | .direct (.number _) => .number
  | .direct (.stack _) => .stack
  | .direct (.text _) => .text
  | .indirect (.number _) => .indirectNumber
  | .indirect (.stack _) => .indirectStack
  | .indirect (.text _) => .indirectText
  | .localLabel _ => .localLabel
  | .longText _ => .longText

theorem code_eq_argumentCode {argument : Argument} {code : ArgumentCode} {textFollows : Bool}
    {written : List UInt8} (encoded : argumentBytes argument = .ok (code, textFollows, written))
    (plain : argument.isLiteral = false) : code = argumentCode argument := by
  have text : ∀ (code' : ArgumentCode) (bytes : List UInt8),
      (do return (code', false, ← textBytes bytes) : Outcome _) = .ok (code, textFollows, written) →
        code = code' := by
    intro code' bytes encoded
    cases short : textBytes bytes with
    | error error => simp [short, bind, Except.bind] at encoded
    | ok encodedText =>
        simp only [short, bind, Except.bind, pure, Except.pure, Except.ok.injEq,
          Prod.mk.injEq] at encoded
        exact encoded.1.symm
  cases argument with
  | none => simp_all [argumentBytes, argumentCode]
  | direct operand =>
      cases operand with
      | text bytes => exact text .text bytes encoded
      | number number | stack register => simp_all [argumentBytes, argumentCode]
  | indirect operand =>
      cases operand with
      | text bytes => exact text .indirectText bytes encoded
      | number number | stack register => simp_all [argumentBytes, argumentCode]
  | localLabel letter =>
      rw [argumentBytes] at encoded
      split at encoded
      · simp_all [argumentCode]
      · cases encoded
  | literal value text => cases plain
  | longText bytes =>
      rw [argumentBytes] at encoded
      split at encoded
      · cases encoded
      · simp_all [argumentCode]

theorem numberRead_isLocalJump (opcode : Opcode) (number magnitude : UInt32) (isNegative : Bool) :
    (⟨opcode, numberRead opcode (.direct (.number number)) magnitude isNegative⟩ :
      Instruction).isLocalJump = opcode.hasTargetCache := by
  unfold numberRead
  split
  · next isNumber => simp [Instruction.isLocalJump, isNumber, Opcode.hasTargetCache]
  · simp [Instruction.isLocalJump]

/-- A jump inside a program has a cache and nothing else has, except that a jump has none that was
written with a negative number in the place of a label. -/
theorem cachesTarget_eq_isLocalJump (opcode : Opcode) {argument : Argument}
    {code : ArgumentCode} {textFollows : Bool} {written : List UInt8}
    (encoded : argumentBytes argument = .ok (code, textFollows, written)) :
    cachesTarget opcode code =
      ((⟨opcode, storedArgument opcode argument⟩ : Instruction).isLocalJump &&
        !(⟨opcode, argument⟩ : Instruction).isNegativeJump) := by
  cases argument with
  | literal value text =>
      cases text with
      | some text =>
          rw [argumentBytes, literalBytes] at encoded
          split at encoded
          · cases encoded
          · obtain ⟨rfl, -⟩ := Prod.mk.inj (Except.ok.inj encoded)
            simp [cachesTarget, storedArgument, Instruction.isLocalJump]
      | none =>
          rw [argumentBytes, literalBytes] at encoded
          rw [storedArgument]
          cases small : smallInteger? value with
          | some integer =>
              simp only [small] at encoded ⊢
              obtain ⟨rfl, -⟩ := Prod.mk.inj (Except.ok.inj encoded)
              rw [numberRead_isLocalJump]
              by_cases negative : integer < 0
              · simp [cachesTarget, Instruction.isNegativeJump, small, negative]
              · simp [cachesTarget, Instruction.isNegativeJump, small, negative]
          | none =>
              simp only [small] at encoded ⊢
              obtain ⟨rfl, -⟩ := Prod.mk.inj (Except.ok.inj encoded)
              simp [cachesTarget, Instruction.isLocalJump]
  | direct operand =>
      rw [code_eq_argumentCode encoded rfl]
      cases operand with
      | number number => simp [storedArgument, numberRead_isLocalJump, cachesTarget, argumentCode,
          Instruction.isNegativeJump]
      | stack register | text bytes =>
          simp [cachesTarget, Instruction.isLocalJump, argumentCode, storedArgument,
            Instruction.isNegativeJump]
  | indirect operand =>
      rw [code_eq_argumentCode encoded rfl]
      cases operand with
      | number number =>
          simp only [storedArgument, numberRead]
          split <;>
            simp [cachesTarget, Instruction.isLocalJump, argumentCode, Instruction.isNegativeJump]
      | stack register | text bytes =>
          simp [cachesTarget, Instruction.isLocalJump, argumentCode, storedArgument,
            Instruction.isNegativeJump]
  | none | localLabel letter | longText bytes =>
      rw [code_eq_argumentCode encoded rfl]
      simp [cachesTarget, Instruction.isLocalJump, argumentCode, storedArgument,
        Instruction.isNegativeJump]

theorem readCache_emptyCache (bytes after : List UInt8) :
    readCache (bytes ++ emptyCache ++ after) bytes.length = none := by
  rw [readCache, List.append_assoc, List.drop_left' rfl, List.take_left' (by rfl), if_pos rfl]

/-- The bytes of an instruction stand for it wherever they are. -/
theorem selfDelimiting_of_encode {instruction : Instruction} {bytes : List UInt8}
    (typed : instruction.IsTyped) (encoded : encode instruction = .ok bytes) :
    SelfDelimiting instruction bytes := by
  obtain ⟨code, textFollows, argument, written, endsWithCache, complete, read⟩ :=
    decode_encode encoded
  have caches := cachesTarget_eq_isLocalJump instruction.opcode written
  rw [storedArgument_of_typed typed, Instruction.isNegativeJump_of_typed typed, Bool.not_false,
    Bool.and_true] at caches
  rw [storedArgument_of_typed typed] at read
  rw [caches] at endsWithCache read
  refine ⟨?_, fun before after => complete.length?_append before after, ?_, ?_, ?_⟩
  · intro before after
    rw [complete.decode_append, read]
    by_cases jump : instruction.isLocalJump
    · obtain ⟨front, rfl⟩ := endsWithCache jump
      simp [Decoded.movedBy, jump, emptyCache, cacheLength]
      omega
    · simp [Decoded.movedBy, jump]
  · intro before after
    rw [Codec.length, complete.length?_append, Option.getD_some]
  · intro before after jump
    obtain ⟨front, rfl⟩ := endsWithCache jump
    have place : before.length + (front ++ emptyCache).length - 4 = (before ++ front).length := by
      simp [emptyCache, cacheLength]
      omega
    rw [place, ← List.append_assoc before front emptyCache]
    exact readCache_emptyCache _ _
  · intro before start isStart proper
    exact complete.length?_of_prefix isStart proper before

/-- Bytes that are written for an instruction. -/
structure Encodes (instruction : Instruction) (bytes : List UInt8) : Prop where
  typed : instruction.IsTyped
  encoded : encode instruction = .ok bytes

theorem decode_of_encodings {instructions : List Instruction} {chunks : List (List UInt8)}
    (encodings : List.Forall₂ Encodes instructions chunks) :
    (∀ chunk ∈ chunks, IsComplete chunk) ∧
      (chunks.map fun chunk => (decode chunk 0).instruction) = instructions := by
  induction encodings with
  | nil => simp
  | @cons instruction chunk instructions chunks encodes _ ih =>
      obtain ⟨code, textFollows, argument, -, -, complete, read⟩ := decode_encode encodes.encoded
      constructor
      · simpa [complete] using ih.1
      · rw [List.map_cons, ih.2, read, storedArgument_of_typed encodes.typed]

/-- What is written for an instruction stands for it at every offset, and no proper start of it is
complete. So any instructions written one behind the other are walked back to the same instructions,
and the walk ends at the end of the bytes. -/
theorem walk_written_instructions :
    (∀ (instruction : Instruction) (bytes : List UInt8), Encodes instruction bytes →
      SelfDelimiting instruction bytes) ∧
    ∀ (instructions : List Instruction) (chunks : List (List UInt8)),
      List.Forall₂ Encodes instructions chunks →
        (Program.linesFrom chunks.flatten 0).map (·.2.instruction) = instructions ∧
          (fun address => address + length chunks.flatten address)^[instructions.length] 0 =
            chunks.flatten.length := by
  constructor
  · intro instruction bytes encodes
    exact selfDelimiting_of_encode encodes.typed encodes.encoded
  · intro instructions chunks encodings
    obtain ⟨complete, decoded⟩ := decode_of_encodings encodings
    constructor
    · have walk := Program.linesFrom_flatten complete []
      rw [List.nil_append, List.length_nil] at walk
      rw [walk, Program.map_instruction_placed, decoded]
    · have walk := Program.iterate_length complete []
      rw [encodings.length_eq]
      simpa using walk

/-- A jump with a cache, a literal with its own text, a negative integer, and an end. -/
theorem walk_written_jump_and_literals :
    let instructions : List Instruction :=
      [⟨.goto, .direct (.number 300)⟩, ⟨.number, .literal (.ofNat 1000) (some "1E3")⟩,
        ⟨.number, .literal (-.ofNat 42) none⟩, .plain .endOfProgram]
    let chunks : List (List UInt8) :=
      [[146, 1, 2, 172, 255, 255, 255, 255],
        [148, 134, 64, 143, 64, 0, 0, 0, 0, 0, 49, 69, 51, 0], [148, 2, 170], [147, 0]]
    List.Forall₂ Encodes instructions chunks ∧
      SelfDelimiting ⟨.goto, .direct (.number 300)⟩ [146, 1, 2, 172, 255, 255, 255, 255] ∧
      (Program.linesFrom chunks.flatten 0).map (·.2.instruction) = instructions ∧
      (fun address => address + length chunks.flatten address)^[4] 0 = 27 := by
  intro instructions chunks
  have encodings : List.Forall₂ Encodes instructions chunks :=
    .cons ⟨by decide, by decide +kernel⟩ <| .cons ⟨by decide, by decide +kernel⟩ <|
      .cons ⟨by decide, by decide +kernel⟩ <| .cons ⟨by decide, by decide +kernel⟩ .nil
  obtain ⟨walked, ended⟩ := walk_written_instructions.2 instructions chunks encodings
  exact ⟨encodings, walk_written_instructions.1 _ _ ⟨by decide, by decide +kernel⟩, walked, ended⟩

end Codec

end Keystroke
