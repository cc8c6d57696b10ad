import Keystroke.Proofs.WholeNumbers
import Keystroke.Proofs.Words

/-!
# Arguments as bytes

Every argument says where its bytes end and is read back from them, whatever stands behind. A number
literal that is small and whole shares its form with plain numbers, so the command decides which of the
two is read.
-/

namespace Keystroke

/-! ## Texts -/

namespace Text

/-- A text is read back from its UTF-8 bytes. -/
theorem ofBytes?_toBytes (text : String) : ofBytes? (toBytes text) = some text := by
  have valid : (⟨text.toUTF8.data.toList.toArray⟩ : ByteArray) = text.toByteArray := by simp
  rw [ofBytes?, toBytes, String.fromUTF8?, valid, dif_pos]
  rfl

@[simp]
theorem ofBytes_toBytes (text : String) : ofBytes (toBytes text) = text := by
  rw [ofBytes, ofBytes?_toBytes]

end Text

theorem StackRegister.ofLetter?_letter (register : StackRegister) :
    ofLetter? register.letter = some register := by
  cases register <;> decide

namespace Argument

def isLiteral : Argument → Bool
  | literal _ _ => true
  | _ => false

end Argument

namespace Codec

/-- What is read for a number that stands behind a command. -/
def numberRead (opcode : Opcode) (argument : Argument) (magnitude : UInt32) (isNegative : Bool) :
    Argument :=
  if opcode = .number then
    .literal (if isNegative then -Binary64.ofNat magnitude.toNat else .ofNat magnitude.toNat) none
  else argument

/-- What is read back for an argument. Only where a literal stands behind another command than the
number command, or that command has a plain number, is it another argument. -/
def storedArgument (opcode : Opcode) : Argument → Argument
  | .direct (.number number) => numberRead opcode (.direct (.number number)) number false
  | .indirect (.number number) => numberRead opcode (.indirect (.number number)) number false
  | .literal value none =>
    match smallInteger? value with
    | some integer =>
      numberRead opcode (.direct (.number integer.natAbs.toUInt32)) integer.natAbs.toUInt32
        (integer < 0)
    | none => .literal value none
  | argument => argument

/-- A small integer gives back the literal that it stands for. -/
theorem literal_of_smallInteger? {value : Binary64} {integer : Int}
    (small : smallInteger? value = some integer) :
    (if integer < 0 then -Binary64.ofNat integer.natAbs.toUInt32.toNat
      else .ofNat integer.natAbs.toUInt32.toNat) = value := by
  rw [smallInteger?] at small
  split at small
  · next found whole =>
      split at small
      · next inRange =>
          obtain rfl : found = integer := Option.some.inj small
          have fits : found.natAbs.toUInt32.toNat = found.natAbs := by
            rw [Nat.toUInt32, UInt32.toNat_ofNat', Nat.mod_eq_of_lt (by omega)]
          rw [fits]
          exact Binary64.ofInt_of_toInt? whole (by omega) inRange.2
      · cases small
  · cases small

/-- An argument is read back where literals belong to the number command and to no other. -/
theorem storedArgument_of_typed {opcode : Opcode} {argument : Argument}
    (typed : opcode = .number ↔ argument.isLiteral) :
    storedArgument opcode argument = argument := by
  cases argument with
  | none => rfl
  | direct operand =>
      have other : opcode ≠ .number := by simpa [Argument.isLiteral] using typed
      cases operand <;> simp [storedArgument, numberRead, other]
  | indirect operand =>
      have other : opcode ≠ .number := by simpa [Argument.isLiteral] using typed
      cases operand <;> simp [storedArgument, numberRead, other]
  | localLabel letter => rfl
  | literal value text =>
      have number : opcode = .number := by simpa [Argument.isLiteral] using typed
      cases text with
      | none =>
          rw [storedArgument]
          split
          · next integer small =>
              rw [numberRead, if_pos number]
              simpa using literal_of_smallInteger? small
          · rfl
      | some text => rfl
  | longText bytes => rfl

/-! ## What was written is read -/

theorem textBytes_eq_ok {bytes written : List UInt8} :
    textBytes bytes = .ok written ↔
      bytes.length ≤ Argument.maximalTextLength ∧ written = bytes.length.toUInt8 :: bytes := by
  rw [textBytes]
  split
  · next long => simp [fail]; omega
  · next short => simp only [Except.ok.injEq, eq_comm]; simp; omega

theorem textAtStart_append {bytes : List UInt8} (short : bytes.length < 256)
    (rest : List UInt8) : textAtStart (bytes.length.toUInt8 :: bytes ++ rest) = bytes := by
  simp [textAtStart, Nat.mod_eq_of_lt short]

theorem lengthToZero?_append {bytes : List UInt8} (noZero : 0 ∉ bytes) (rest : List UInt8) :
    lengthToZero? (bytes ++ 0 :: rest) = some (bytes.length + 1) := by
  induction bytes with
  | nil => simp [lengthToZero?]
  | cons byte bytes ih =>
      simp only [List.mem_cons, not_or] at noZero
      rw [List.cons_append, lengthToZero?, if_neg (Ne.symm noZero.1), ih noZero.2]
      simp

theorem takeWhile_append_zero {bytes : List UInt8} (noZero : 0 ∉ bytes) (rest : List UInt8) :
    (bytes ++ 0 :: rest).takeWhile (· ≠ 0) = bytes := by
  rw [List.takeWhile_append_of_pos]
  · simp
  · intro byte member
    simpa using fun zero : byte = 0 => noZero (zero ▸ member)

theorem real_of_wordBytes (value : Binary64) (rest : List UInt8) :
    (⟨(wordOf ((wordBytes 8 value.bits.toNat ++ rest).take 8)).toUInt64⟩ : Binary64) = value := by
  have bound := value.bits.toNat_lt
  rw [List.take_left' (wordBytes_length 8 _), wordOf_wordBytes, Nat.mod_eq_of_lt (by omega)]
  simp

/-- The bytes of an argument say how many they are and are read back, whatever stands behind. -/
structure ReadsBack (opcode : Opcode) (code : ArgumentCode) (textFollows : Bool)
    (written : List UInt8) (argument : Argument) : Prop where
  length (rest : List UInt8) :
    argumentLength? code textFollows (written ++ rest) = some written.length
  read (rest : List UInt8) :
    readArgument opcode code textFollows (written ++ rest) = (argument, written.length)

theorem readsBack_groups (opcode : Opcode) (number : UInt32) (code : ArgumentCode)
    (isNumber : code = .number ∨ code = .negativeNumber ∨ code = .indirectNumber) :
    ReadsBack opcode code false (groups number)
      (numberRead opcode
        (if code = .indirectNumber then .indirect (.number number) else .direct (.number number))
        number (code = .negativeNumber)) := by
  constructor
  · intro rest
    rcases isNumber with rfl | rfl | rfl <;> simp [argumentLength?, readGroups_groups]
  · intro rest
    rcases isNumber with rfl | rfl | rfl <;>
      simp [readArgument, numberAtStart, readGroups_groups, numberRead]

theorem readsBack_literal {value : Binary64} {text : Option String} {code : ArgumentCode}
    {textFollows : Bool} {written : List UInt8}
    (encoded : literalBytes value text = .ok (code, textFollows, written)) (opcode : Opcode) :
    ReadsBack opcode code textFollows written (storedArgument opcode (.literal value text)) := by
  cases text with
  | some text =>
      rw [literalBytes] at encoded
      split at encoded
      · cases encoded
      next noZero =>
        obtain ⟨rfl, rfl, rfl⟩ : code = .double ∧ textFollows = true ∧ written =
            wordBytes 8 value.bits.toNat ++ Text.toBytes text ++ [0] := by
          simpa [eq_comm] using encoded
        have absent : 0 ∉ Text.toBytes text := by simpa using noZero
        constructor
        · intro rest
          rw [argumentLength?, if_pos rfl, List.append_assoc, List.append_assoc,
            List.drop_left' (wordBytes_length 8 _), List.singleton_append,
            lengthToZero?_append absent]
          simp [Nat.add_comm, Nat.add_left_comm]
        · intro rest
          have behind : (wordBytes 8 value.bits.toNat ++ Text.toBytes text ++ [0] ++ rest).drop 8 =
              Text.toBytes text ++ 0 :: rest := by
            rw [List.append_assoc, List.append_assoc, List.drop_left' (wordBytes_length 8 _)]
            rfl
          rw [readArgument, behind, takeWhile_append_zero absent, List.append_assoc,
            List.append_assoc, real_of_wordBytes]
          simp [storedArgument, Nat.add_assoc]
  | none =>
      rw [literalBytes] at encoded
      split at encoded
      · next integer small =>
          obtain ⟨rfl, rfl, rfl⟩ : code = (if integer < 0 then .negativeNumber else .number) ∧
              textFollows = false ∧ written = groups integer.natAbs.toUInt32 := by
            simpa [eq_comm] using encoded
          have back := readsBack_groups opcode integer.natAbs.toUInt32
            (if integer < 0 then .negativeNumber else .number) (by split <;> simp)
          by_cases negative : integer < 0 <;>
            simpa [storedArgument, small, negative] using back
      · next large =>
          obtain ⟨rfl, rfl, rfl⟩ : code = .double ∧ textFollows = false ∧
              written = wordBytes 8 value.bits.toNat := by
            simpa [eq_comm] using encoded
          constructor
          · intro rest
            simp [argumentLength?]
          · intro rest
            rw [readArgument, real_of_wordBytes]
            simp [storedArgument, large]

theorem readsBack_register (opcode : Opcode) (register : StackRegister) (code : ArgumentCode)
    (isStack : code = .stack ∨ code = .indirectStack) :
    ReadsBack opcode code false [register.letter]
      (if code = .stack then .direct (.stack register) else .indirect (.stack register)) := by
  constructor
  · intro rest
    rcases isStack with rfl | rfl <;> simp [argumentLength?]
  · intro rest
    rcases isStack with rfl | rfl <;>
      simp [readArgument, registerAtStart, StackRegister.ofLetter?_letter]

theorem readsBack_text {bytes written : List UInt8} (encoded : textBytes bytes = .ok written)
    (opcode : Opcode) (code : ArgumentCode) (isText : code = .text ∨ code = .indirectText) :
    ReadsBack opcode code false written
      (if code = .text then .direct (.text bytes) else .indirect (.text bytes)) := by
  obtain ⟨short, rfl⟩ := textBytes_eq_ok.mp encoded
  have fits : bytes.length < 256 := lt_of_le_of_lt short (by decide)
  have back := textAtStart_append fits
  simp only [List.cons_append] at back
  constructor
  · intro rest
    rcases isText with rfl | rfl <;>
      simp [argumentLength?, Nat.mod_eq_of_lt fits, Nat.add_comm]
  · intro rest
    rcases isText with rfl | rfl <;>
      simp [readArgument, back, Nat.mod_eq_of_lt fits, Nat.add_comm]

theorem textBytes_of_argumentBytes {bytes written : List UInt8} {kind code : ArgumentCode}
    {textFollows : Bool}
    (encoded : (do return (kind, false, ← textBytes bytes)) = .ok (code, textFollows, written)) :
    code = kind ∧ textFollows = false ∧ textBytes bytes = .ok written := by
  cases isText : textBytes bytes with
  | error error =>
      rw [isText] at encoded
      cases encoded
  | ok found =>
      rw [isText] at encoded
      cases encoded
      exact ⟨rfl, rfl, rfl⟩

theorem readsBack_longText {bytes : List UInt8}
    (fits : bytes.length ≤ Argument.maximalLongTextLength) (opcode : Opcode) :
    ReadsBack opcode .longText false (wordBytes 2 bytes.length ++ bytes) (.longText bytes) := by
  have small : bytes.length < 256 ^ 2 := lt_of_le_of_lt fits (by decide)
  have word : wordOf (wordBytes 2 bytes.length) = bytes.length := by
    rw [wordOf_wordBytes, Nat.mod_eq_of_lt small]
  constructor
  · intro rest
    simp only [argumentLength?, wordBytes_two, List.cons_append, List.nil_append,
      List.length_cons, Option.some.injEq]
    rw [wordBytes_two, wordOf_pair] at word
    omega
  · intro rest
    rw [readArgument, List.append_assoc, List.take_left' (wordBytes_length 2 _), word,
      List.drop_left' (wordBytes_length 2 _), List.take_left' rfl]
    simp

/-- An argument is read back from its bytes as far as its command allows. -/
theorem readsBack_argument {argument : Argument} {code : ArgumentCode} {textFollows : Bool}
    {written : List UInt8} (encoded : argumentBytes argument = .ok (code, textFollows, written))
    (opcode : Opcode) :
    ReadsBack opcode code textFollows written (storedArgument opcode argument) := by
  cases argument with
  | none =>
      obtain ⟨rfl, rfl, rfl⟩ : code = .none ∧ textFollows = false ∧ written = [] := by
        simpa [argumentBytes, eq_comm] using encoded
      exact ⟨fun rest => rfl, fun rest => rfl⟩
  | direct operand =>
      cases operand with
      | number number =>
          obtain ⟨rfl, rfl, rfl⟩ : code = .number ∧ textFollows = false ∧
              written = groups number := by
            simpa [argumentBytes, eq_comm] using encoded
          simpa [storedArgument] using readsBack_groups opcode number .number (by simp)
      | stack register =>
          obtain ⟨rfl, rfl, rfl⟩ : code = .stack ∧ textFollows = false ∧
              written = [register.letter] := by
            simpa [argumentBytes, eq_comm] using encoded
          exact readsBack_register opcode register .stack (by simp)
      | text bytes =>
          obtain ⟨rfl, rfl, encodedText⟩ := textBytes_of_argumentBytes encoded
          exact readsBack_text encodedText opcode .text (by simp)
  | indirect operand =>
      cases operand with
      | number number =>
          obtain ⟨rfl, rfl, rfl⟩ : code = .indirectNumber ∧ textFollows = false ∧
              written = groups number := by
            simpa [argumentBytes, eq_comm] using encoded
          simpa [storedArgument] using
            readsBack_groups opcode number .indirectNumber (by simp)
      | stack register =>
          obtain ⟨rfl, rfl, rfl⟩ : code = .indirectStack ∧ textFollows = false ∧
              written = [register.letter] := by
            simpa [argumentBytes, eq_comm] using encoded
          exact readsBack_register opcode register .indirectStack (by simp)
      | text bytes =>
          obtain ⟨rfl, rfl, encodedText⟩ := textBytes_of_argumentBytes encoded
          exact readsBack_text encodedText opcode .indirectText (by simp)
  | localLabel letter =>
      rw [argumentBytes] at encoded
      split at encoded
      · obtain ⟨rfl, rfl, rfl⟩ : code = .localLabel ∧ textFollows = false ∧
            written = [letter] := by
          simpa [eq_comm] using encoded
        exact ⟨fun rest => rfl, fun rest => rfl⟩
      · cases encoded
  | literal value text => exact readsBack_literal encoded opcode
  | longText bytes =>
      rw [argumentBytes] at encoded
      split at encoded
      · cases encoded
      next fits =>
        obtain ⟨rfl, rfl, rfl⟩ : code = .longText ∧ textFollows = false ∧
            written = wordBytes 2 bytes.length ++ bytes := by
          simpa [eq_comm] using encoded
        exact readsBack_longText (by omega) opcode

end Codec

end Keystroke
