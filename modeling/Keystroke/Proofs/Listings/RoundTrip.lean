import Mathlib
import Keystroke.Proofs.Instructions
import Keystroke.Proofs.Listings.Commands

/-!
# Reading what is listed

An instruction that a line means is listed as a line that means it. A number keeps the text that was typed
for it, unless that is the text of its value anyway. What is stored of an instruction is listed in the same
way.
-/

namespace Keystroke

open Text

namespace TypedLine

/-! ## What a line means -/

variable {opcode : Opcode} {instruction : Instruction} {line : String} {text : List Char}

/-- What a line can mean: the number that it denotes, a text, or a visible command with an argument that
can be read for it. -/
inductive MayMean (line : List Char) : Instruction → Prop
  | number {value : Binary64} (denotes : number? line = some value) :
      MayMean line ⟨.number, Argument.typedLiteral value (some (String.ofList line))⟩
  | text {name : String} (fits : (toBytes name).length ≤ Argument.maximalTextLength) :
      MayMean line ⟨.shortText, .direct (.text (toBytes name))⟩
  | command {opcode : Opcode} {argument : Argument} (shown : opcode.isHidden = false)
      (read : IsReadFor opcode argument) : MayMean line ⟨opcode, argument⟩

theorem mayMean_of_withArgument (shown : opcode.isHidden = false)
    (read : withArgument opcode text = .ok (.complete instruction)) (line : List Char) :
    MayMean line instruction := by
  obtain ⟨rfl, readFor⟩ := isReadFor_of_withArgument read
  exact .command shown readFor

theorem mayMean_of_parse (read : parse line = .ok (.complete instruction)) :
    MayMean (trim line.toList) instruction := by
  rw [parse] at read
  -- In the order of the parser: an empty line, a text, a number, a command.
  split at read
  · cases read
  · split at read
    · obtain ⟨bytes, unquoted, rest⟩ := StateFile.bind_eq_ok.mp read
      obtain ⟨name, rfl⟩ := exists_of_unquote unquoted
      split at rest
      · cases rest
        exact .command (by decide) (.longText (by decide) name)
      · cases rest
        exact .text (by omega)
    · split at read
      · next denotes =>
          cases read
          exact .number denotes
      · split at read
        · next isCommand => exact mayMean_of_withArgument (isHidden_of_command? isCommand) read _
        · cases read

/-! ## Number literals -/

/-- A literal is listed with the text that was typed for it, whether that was kept or not. -/
theorem toList_listing_number (value : Binary64) (inFull : text.length ≤ 22) :
    (Instruction.listing ⟨.number, Argument.typedLiteral value (some (String.ofList text))⟩).toList = text := by
  have listed : Instruction.listing ⟨.number, Argument.typedLiteral value (some (String.ofList text))⟩ =
      Instruction.literalText (String.ofList text) := by
    rw [Argument.typedLiteral, Instruction.listing]
    by_cases same : String.ofList text = Decimal.plainText value <;> simp [same, Option.filter]
  rw [listed, Instruction.literalText,
    if_neg (by simpa [Instruction.maximalLiteralLength] using inFull), String.toList_ofList]

/-- The characters of a numeral are visible, and none of them is a quotation mark. -/
theorem code_of_number? {value : Binary64} (denotes : number? text = some value) :
    text ≠ [] ∧ ∀ character ∈ text, 34 < character.toNat ∧ character.toNat < 128 := by
  cases text with
  | nil => cases denotes
  | cons first rest =>
      rw [number?] at denotes
      split at denotes
      · next plain =>
          refine ⟨List.cons_ne_nil _ _, fun character member => ?_⟩
          have admitted := List.all_eq_true.mp (Bool.and_eq_true_iff.mp plain).2 character member
          simp only [Bool.or_eq_true, List.contains_eq_mem, List.mem_cons, List.not_mem_nil, or_false,
            decide_eq_true_eq] at admitted
          obtain digit | rfl | rfl | rfl | rfl | rfl := admitted
          · have code := Decimal.code_of_isDigit digit
            omega
          all_goals decide
      · cases denotes

theorem parse_number {value : Binary64} (trimmed : IsTrimmed text) (denotes : number? text = some value)
    (isLine : line.toList = text) :
    parse line = .ok (.complete ⟨.number, Argument.typedLiteral value (some (String.ofList text))⟩) := by
  subst isLine
  obtain ⟨notEmpty, codes⟩ := code_of_number? denotes
  have noQuote : line.toList.head? ≠ some '"' := fun isHead =>
    absurd (codes _ (List.mem_of_head? isHead)).1 (by decide)
  rw [parse, trim_eq_self trimmed, if_neg (by simpa using notEmpty), if_neg noQuote, denotes]

theorem parse_quoted {name : String} (short : (toBytes name).length ≤ Argument.maximalTextLength) :
    parse (Instruction.quoted (toBytes name)) =
      .ok (.complete ⟨.shortText, .direct (.text (toBytes name))⟩) := by
  rw [parse, trim_eq_self (isTrimmed_quoted name), if_neg (by simp [toList_quoted]),
    if_pos (by simp [toList_quoted]), unquote_quoted, StateFile.ok_bind, if_neg (by omega)]
  rfl

end TypedLine

/-! ## What is stored -/

/-- A text of ASCII characters has a byte for each of them. -/
theorem Text.toBytes_ofList {text : List Char} (ascii : ∀ character ∈ text, character.toNat < 128) :
    toBytes (String.ofList text) = text.map fun character => character.toNat.toUInt8 := by
  have bytes : toBytes (String.ofList text) = text.flatMap String.utf8EncodeChar := by
    rw [toBytes]
    simp [List.utf8Encode]
  rw [bytes, List.map_eq_flatMap]
  refine List.flatMap_congr fun character member => String.utf8EncodeChar_eq_singleton ?_
  have code := ascii character member
  rw [Char.utf8Size, if_pos]
  exact UInt32.le_iff_toNat_le.mpr (Nat.le_of_lt_succ code)

namespace Codec

theorem length_groups_le (number : UInt32) : (groups number).length ≤ 5 := by
  have bound := number.toNat_lt
  rw [groups]
  split
  · simp
  · exact groupsBefore_length_le 5 (number.toNat / 128) 4 _ (by decide) (by omega)

/-- A literal without zeros in its text has at most nine bytes more than the text. -/
theorem exists_literalBytes (value : Binary64) {text : Option String} {limit : Nat}
    (kept : ∀ typed ∈ text, 0 ∉ toBytes typed ∧ (toBytes typed).length ≤ limit) :
    ∃ code textFollows written, literalBytes value text = .ok (code, textFollows, written) ∧
      written.length ≤ limit + 9 := by
  cases text with
  | some typed =>
      obtain ⟨noZero, short⟩ := kept typed rfl
      refine ⟨_, _, _, by rw [literalBytes, if_neg (by simpa using noZero)], ?_⟩
      simp only [List.length_append, wordBytes_length, List.length_singleton]
      omega
  | none =>
      rw [literalBytes]
      split
      · next integer _ =>
          have short := length_groups_le integer.natAbs.toUInt32
          exact ⟨_, _, _, rfl, by omega⟩
      · exact ⟨_, _, _, rfl, by rw [wordBytes_length]; omega⟩

/-- A number literal of moderate length can be stored. -/
theorem exists_encode_number (value : Binary64) {text : Option String}
    (kept : ∀ typed ∈ text, 0 ∉ toBytes typed ∧ (toBytes typed).length ≤ 22) :
    ∃ bytes, encode ⟨.number, .literal value text⟩ = .ok bytes := by
  obtain ⟨code, textFollows, written, isWritten, short⟩ := exists_literalBytes value kept
  refine ⟨header .number code textFollows ++ written ++ [], ?_⟩
  rw [encode, argumentBytes, isWritten, StateFile.ok_bind]
  have noCache : cachesTarget .number code = false := rfl
  simp only [noCache, Bool.false_eq_true, if_false]
  rw [if_neg]
  · rfl
  · simp [header, maximalLength]
    omega

end Codec

namespace Instruction

/-- The text of a number literal, as it was typed. -/
def literalSource? (instruction : Instruction) : Option String :=
  match instruction.argument with
  | .literal value text => some (text.getD (Decimal.plainText value))
  | _ => none

@[simp]
theorem literalSource?_typedLiteral (value : Binary64) (text : String) :
    literalSource? ⟨.number, Argument.typedLiteral value (some text)⟩ = some text := by
  by_cases same : text = Decimal.plainText value <;>
    simp [literalSource?, Argument.typedLiteral, Option.filter, same]

/-- An instruction that a line means, or what is typed behind a visible command. -/
inductive IsEntered (instruction : Instruction) : Prop
  | line {line : String} (read : TypedLine.parse line = .ok (.complete instruction)) : IsEntered instruction
  | argument {opcode : Opcode} (shown : opcode.isHidden = false) {line : String}
      (read : TypedLine.parseArgument opcode line = .ok (.complete instruction)) : IsEntered instruction

variable {instruction : Instruction}

theorem IsEntered.exists_mayMean (entered : instruction.IsEntered) :
    ∃ line, IsTrimmed line ∧ TypedLine.MayMean line instruction := by
  cases entered with
  | line read => exact ⟨_, isTrimmed_trim _, TypedLine.mayMean_of_parse read⟩
  | argument shown read => exact ⟨_, isTrimmed_trim [], TypedLine.mayMean_of_withArgument shown read _⟩

theorem parse_listing {line : List Char} (trimmed : IsTrimmed line)
    (means : TypedLine.MayMean line instruction)
    (short : ∀ text ∈ instruction.literalSource?, text.toList.length ≤ 22) :
    TypedLine.parse instruction.listing = .ok (.complete instruction) := by
  cases means with
  | number denotes =>
      exact TypedLine.parse_number trimmed denotes (TypedLine.toList_listing_number _ (by simpa using short))
  | text fits => exact TypedLine.parse_quoted fits
  | command shown read => exact TypedLine.parse_listing_command shown read

theorem isTyped_of_mayMean {line : List Char} (means : TypedLine.MayMean line instruction) :
    instruction.IsTyped := by
  cases means with
  | number denotes => exact ⟨fun _ => rfl, fun _ => rfl⟩
  | text fits => simp [IsTyped, Argument.isLiteral]
  | command shown read =>
      refine ⟨fun isNumber => absurd isNumber (TypedLine.ne_of_shown shown).1, fun isLiteral => ?_⟩
      cases read with
      | plain => cases isLiteral
      | longText => cases isLiteral
      | argument takes takesOther typed suits => cases typed <;> cases isLiteral

/-- What is stored of an instruction is the same instruction. -/
theorem decode_encode_of_isTyped (typed : instruction.IsTyped) {bytes : List UInt8}
    (encoded : Codec.encode instruction = .ok bytes) : (Codec.decode bytes 0).instruction = instruction := by
  obtain ⟨_, _, _, _, _, _, isRead⟩ := Codec.decode_encode encoded
  rw [isRead, Codec.storedArgument_of_typed typed]

/-- A number line of moderate length can be stored and is listed as it was typed. -/
theorem listing_of_number {line : List Char} (means : TypedLine.MayMean line instruction)
    (isNumber : instruction.opcode = .number)
    (short : ∀ text ∈ instruction.literalSource?, text.toList.length ≤ 22) :
    instruction.listing.toList = line ∧ ∃ bytes, Codec.encode instruction = .ok bytes := by
  cases means with
  | text fits => cases isNumber
  | command shown read => exact absurd isNumber (TypedLine.ne_of_shown shown).1
  | @number value denotes =>
      have inFull : line.length ≤ 22 := by simpa using short
      obtain ⟨-, codes⟩ := TypedLine.code_of_number? denotes
      refine ⟨TypedLine.toList_listing_number _ inFull, ?_⟩
      refine Codec.exists_encode_number value fun typed isKept => ?_
      obtain rfl : String.ofList line = typed := Option.mem_some.mp (Option.mem_filter_iff.mp isKept).1
      rw [toBytes_ofList fun character member => (codes character member).2]
      refine ⟨fun zero => ?_, by simpa using inFull⟩
      obtain ⟨character, member, isZero⟩ := List.mem_map.mp zero
      have code := codes character member
      have same := congrArg UInt8.toNat isZero
      rw [Nat.toUInt8, UInt8.toNat_ofNat'] at same
      change character.toNat % 256 = 0 at same
      omega

/-- A line that is typed for an instruction, or for the argument of a visible command, is listed so that it
means the same again, if a number literal in it is listed in full. What is stored of the instruction is
listed in the same way; and a number line can be stored and is listed as it was typed. -/
theorem IsEntered.listing_reads_back (entered : instruction.IsEntered)
    (short : ∀ text ∈ instruction.literalSource?, text.toList.length ≤ 22) :
    TypedLine.parse instruction.listing = .ok (.complete instruction) ∧
      (∀ bytes, Codec.encode instruction = .ok bytes →
        (Codec.decode bytes 0).instruction.listing = instruction.listing) ∧
      ∀ line, TypedLine.parse line = .ok (.complete instruction) → instruction.opcode = .number →
        ∃ bytes, Codec.encode instruction = .ok bytes ∧
          (Codec.decode bytes 0).instruction.listing.toList = Text.trim line.toList := by
  obtain ⟨line, trimmed, means⟩ := entered.exists_mayMean
  have stored {bytes : List UInt8} (encoded : Codec.encode instruction = .ok bytes) :
      (Codec.decode bytes 0).instruction = instruction :=
    decode_encode_of_isTyped (isTyped_of_mayMean means) encoded
  refine ⟨parse_listing trimmed means short, fun bytes encoded => by rw [stored encoded], ?_⟩
  intro line read isNumber
  obtain ⟨listed, bytes, encoded⟩ := listing_of_number (TypedLine.mayMean_of_parse read) isNumber short
  exact ⟨bytes, encoded, by rw [stored encoded, listed]⟩

/-- Minus zero, typed with two places. -/
def minusZero : Instruction := ⟨.number, .literal (-Binary64.ofNat 0) (some "-0.00")⟩

/-- Store into the register whose number is in X. -/
def storeByX : Instruction := ⟨.store, .indirect (.stack .x)⟩

theorem reads_back_minusZero :
    (TypedLine.parse " -0.00 " = .ok (.complete minusZero) ∧
      TypedLine.parseArgument .store "ind st x" = .ok (.complete storeByX) ∧
      ∀ text ∈ minusZero.literalSource?, text.toList.length ≤ 22) ∧
    (TypedLine.parse minusZero.listing = .ok (.complete minusZero) ∧
      ∃ bytes, Codec.encode minusZero = .ok bytes ∧
        (Codec.decode bytes 0).instruction.listing.toList = "-0.00".toList) ∧
    TypedLine.parse storeByX.listing = .ok (.complete storeByX) := by
  have line : TypedLine.parse " -0.00 " = .ok (.complete minusZero) := by decide +kernel
  have behind : TypedLine.parseArgument .store "ind st x" = .ok (.complete storeByX) := by decide +kernel
  have short : ∀ text ∈ minusZero.literalSource?, text.toList.length ≤ 22 := by
    simp [literalSource?, minusZero]
  obtain ⟨again, -, stored⟩ := IsEntered.listing_reads_back (.line line) short
  have other := IsEntered.listing_reads_back (.argument rfl behind) (by simp [literalSource?, storeByX])
  exact ⟨⟨line, behind, short⟩, ⟨again, stored " -0.00 " line rfl⟩, other.1⟩

end Instruction

end Keystroke
