import Mathlib
import Keystroke.Instruction.Listing
import Keystroke.Instruction.Parser
import Keystroke.Proofs.Arguments
import Keystroke.Proofs.Listings.Words
import Keystroke.Proofs.StateFile.Fields

/-!
# Arguments as listed

Whatever argument a line has, its text in a listing is read as the same argument. This text is trimmed,
and its first word is not taken for a part of the command's name.
-/

namespace Keystroke

open Text

/-! ## Digits -/

namespace Decimal

theorem isDigit_eq (character : Char) : isDigit character = character.isDigit := rfl

theorem code_of_isDigit {character : Char} (digit : isDigit character = true) :
    48 ≤ character.toNat ∧ character.toNat ≤ 57 := by
  simp only [isDigit, Bool.and_eq_true, decide_eq_true_eq] at digit
  exact digit

theorem toUpper_of_isDigit {character : Char} (digit : isDigit character = true) :
    character.toUpper = character := by
  have code := code_of_isDigit digit
  rw [Char.toUpper, dif_neg]
  rintro ⟨low, -⟩
  have low : 97 ≤ character.toNat := low
  omega

theorem digitsValue_eq (digits : List Char) : digitsValue digits = Nat.ofDigitChars 10 digits 0 := by
  simp only [digitsValue, Nat.ofDigitChars, Nat.mul_comm]
  rfl

/-- What is known of the digits of a number. -/
structure AreDigitsOf (number : Nat) (text : List Char) : Prop where
  digits : ∀ character ∈ text, isDigit character = true
  notEmpty : text ≠ []
  value : digitsValue text = number

theorem areDigitsOf_paddedDigits (width number : Nat) :
    AreDigitsOf number (paddedDigits width number).toList := by
  rw [paddedDigits, String.toList_ofList]
  refine ⟨fun character member => ?_, by simp, ?_⟩
  · obtain zero | digit := List.mem_append.mp member
    · rw [List.eq_of_mem_replicate zero]
      decide
    · rw [isDigit_eq]
      exact Nat.isDigit_of_mem_toDigits (by decide) (by decide) digit
  · rw [digitsValue_eq, Nat.ofDigitChars_append, Nat.ofDigitChars_replicate_zero, Nat.mul_zero,
      Nat.ofDigitChars_ten_toDigits]

theorem AreDigitsOf.isSolid {number : Nat} {text : List Char} (areDigits : AreDigitsOf number text) :
    IsSolid text := fun character member => by
  have code := code_of_isDigit (areDigits.digits character member)
  exact isBlank_eq_false (by omega) (by omega)

end Decimal

namespace TypedLine

/-! ## What is read -/

/-- Operands that a line can have. -/
inductive IsTypedOperand : Operand → Prop
  | number (number : UInt32) : IsTypedOperand (.number number)
  | stack (register : StackRegister) : IsTypedOperand (.stack register)
  | text {name : String} (short : (toBytes name).length ≤ Argument.maximalTextLength) :
      IsTypedOperand (.text (toBytes name))

/-- Arguments that a line can have, long texts apart. -/
inductive IsTypedArgument : Argument → Prop
  | direct {operand : Operand} (typed : IsTypedOperand operand) : IsTypedArgument (.direct operand)
  | indirect {operand : Operand} (typed : IsTypedOperand operand) : IsTypedArgument (.indirect operand)
  | localLabel {letter : UInt8} (isLabel : Argument.isLocalLabel letter = true) :
      IsTypedArgument (.localLabel letter)

theorem exists_of_unquote {text : List Char} {bytes : List UInt8} (read : unquote text = .ok bytes) :
    ∃ name, bytes = toBytes name := by
  rw [unquote] at read
  split at read
  · split at read
    · exact ⟨_, (Except.ok.inj read).symm⟩
    · cases read
  · cases read

theorem isTypedArgument_of_direct {text : List Char} {argument : Argument}
    (read : directArgument text = .ok argument) : IsTypedArgument argument := by
  rw [directArgument] at read
  split at read
  · obtain ⟨name, unquoted, rest⟩ := StateFile.bind_eq_ok.mp read
    obtain ⟨name, rfl⟩ := exists_of_unquote unquoted
    split at rest
    · cases rest
    · cases rest
      exact .direct (.text (by omega))
  · split at read
    · split at read
      · cases read
        exact .direct (.stack _)
      · cases read
    · split at read
      · dsimp only at read
        split at read
        · cases read
          exact .direct (.number _)
        · cases read
      · split at read
        · split at read
          · next isLabel =>
              cases read
              exact .localLabel (Bool.and_eq_true_iff.mp isLabel).2
          · cases read
        · cases read

theorem isTypedArgument_of_argument {text : List Char} {argument : Argument}
    (read : TypedLine.argument text = .ok argument) : IsTypedArgument argument := by
  rw [TypedLine.argument] at read
  split at read
  · obtain ⟨direct, isRead, rest⟩ := StateFile.bind_eq_ok.mp read
    split at rest
    · cases rest
      cases isTypedArgument_of_direct isRead with
      | direct typed => exact .indirect typed
    · cases rest
  · exact isTypedArgument_of_direct read

end TypedLine

/-! ## What is listed -/

section Quoted

variable (name : String)

theorem toList_quoted : (Instruction.quoted (toBytes name)).toList = '"' :: (name.toList ++ ['"']) := by
  simp [Instruction.quoted]

theorem isTrimmed_quoted : IsTrimmed (Instruction.quoted (toBytes name)).toList := by
  have mark : IsSolid ['"'] := by decide
  have between := mark.isTrimmed.append (by decide) mark.isTrimmed (by decide) name.toList
  rwa [List.append_assoc, List.singleton_append, ← toList_quoted] at between

theorem TypedLine.unquote_quoted :
    unquote (Instruction.quoted (toBytes name)).toList = .ok (toBytes name) := by
  rw [unquote, trim_eq_self (isTrimmed_quoted name), toList_quoted]
  simp

end Quoted

namespace TypedLine

/-- A text that behind the name of a command is its argument: its first word does not go on with the name,
even if there is a point in it. -/
structure IsArgumentText (text : List Char) : Prop where
  trimmed : IsTrimmed text
  notEmpty : text ≠ []
  apart : ∀ word ∈ (words text).head?, '"' ∈ word ∨ '.' ∉ word

theorem isArgumentText_of_noPoint {text : List Char} (trimmed : IsTrimmed text) (notEmpty : text ≠ [])
    (noPoint : '.' ∉ text) : IsArgumentText text := by
  refine ⟨trimmed, notEmpty, fun word isFirst => .inr fun member => noPoint ?_⟩
  obtain ⟨rest, parts⟩ := exists_words trimmed notEmpty
  rw [parts, List.head?_cons, Option.mem_some_iff] at isFirst
  exact (List.takeWhile_subset _) (isFirst ▸ member)

theorem isArgumentText_quoted (name : String) :
    IsArgumentText (Instruction.quoted (toBytes name)).toList := by
  refine ⟨isTrimmed_quoted name, by simp [toList_quoted], fun word isFirst => .inl ?_⟩
  obtain ⟨rest, parts⟩ := exists_words (isTrimmed_quoted name) (by simp [toList_quoted])
  rw [parts, List.head?_cons, Option.mem_some_iff, toList_quoted] at isFirst
  rw [← isFirst, List.takeWhile_cons_of_pos (by decide)]
  exact List.mem_cons_self

/-- The word in front of an indirect argument. -/
def indirectWord : List Char := ['I', 'N', 'D']

theorem isArgumentText_indirect {text : List Char} (isArgument : IsArgumentText text) :
    IsArgumentText (indirectWord ++ ' ' :: text) := by
  have solid : IsSolid indirectWord := by decide
  refine ⟨?_, List.append_ne_nil_of_left_ne_nil (by decide) _, fun word isFirst => .inr ?_⟩
  · rw [List.append_cons]
    exact solid.isTrimmed.append (by decide) isArgument.trimmed isArgument.notEmpty [' ']
  · rw [words_append solid (by decide) (by decide), List.head?_cons, Option.mem_some_iff] at isFirst
    exact isFirst ▸ by decide

theorem toList_operandText_stack (width : Nat) (register : StackRegister) :
    (Instruction.operandText width (.stack register)).toList =
      ['S', 'T', ' ', Char.ofNat register.letter.toNat] := by
  rw [Instruction.operandText, String.toList_ofList]

variable {operand : Operand}

theorem isArgumentText_operand (typed : IsTypedOperand operand) (width : Nat) :
    IsArgumentText (Instruction.operandText width operand).toList := by
  cases typed with
  | number number =>
      have areDigits := Decimal.areDigitsOf_paddedDigits width number.toNat
      exact isArgumentText_of_noPoint areDigits.isSolid.isTrimmed areDigits.notEmpty fun member =>
        absurd (areDigits.digits '.' member) (by decide)
  | stack register =>
      have letter : IsSolid [Char.ofNat register.letter.toNat] := by cases register <;> decide
      rw [toList_operandText_stack]
      refine isArgumentText_of_noPoint ?_ (List.cons_ne_nil _ _) (by cases register <;> decide)
      have word : IsSolid ['S', 'T'] := by decide
      exact word.isTrimmed.append (by decide) letter.isTrimmed (List.cons_ne_nil _ _) [' ']
  | text short => exact isArgumentText_quoted _

/-- The letters in front of an argument are none of those with which a number begins. -/
theorem not_prefix_of_digits {number : Nat} {text : List Char} (areDigits : Decimal.AreDigitsOf number text)
    {letter : Char} (noDigit : Decimal.isDigit letter = false) (letters : List Char) :
    (letter :: letters).isPrefixOf (upper text) = false := by
  obtain ⟨first, rest, rfl⟩ := List.exists_cons_of_ne_nil areDigits.notEmpty
  have digit := areDigits.digits first List.mem_cons_self
  have differ : (letter == first) = false := by
    rw [beq_eq_false_iff_ne]
    rintro rfl
    exact absurd digit (by simp [noDigit])
  rw [upper, List.map_cons, Decimal.toUpper_of_isDigit digit, List.isPrefixOf, differ, Bool.false_and]

/-- An operand is read as it is listed. -/
theorem directArgument_operandText (typed : IsTypedOperand operand) (width : Nat) :
    directArgument (Instruction.operandText width operand).toList = .ok (.direct operand) := by
  have trimmed := (isArgumentText_operand typed width).trimmed
  cases typed with
  | number number =>
      rw [directArgument, trim_eq_self trimmed]
      have areDigits := Decimal.areDigitsOf_paddedDigits width number.toNat
      rw [Instruction.operandText]
      have noQuote : (Decimal.paddedDigits width number.toNat).toList.head? ≠ some '"' := fun isHead =>
        absurd (areDigits.digits _ (List.mem_of_head? isHead)) (by decide)
      have all : (Decimal.paddedDigits width number.toNat).toList.all Decimal.isDigit = true :=
        List.all_eq_true.mpr areDigits.digits
      have noStack := not_prefix_of_digits areDigits (rfl : Decimal.isDigit 'S' = false)
      simp [noQuote, noStack, all, areDigits.notEmpty,
        areDigits.value, number.toNat_lt]
  | stack register =>
      rw [toList_operandText_stack]
      cases register <;> decide
  | text short =>
      rw [directArgument, trim_eq_self trimmed, Instruction.operandText, if_pos (by simp [toList_quoted]),
        unquote_quoted, StateFile.ok_bind, if_neg (by omega)]
      rfl

theorem toNat_localLabel {letter : UInt8} (isLabel : Argument.isLocalLabel letter = true) :
    (Char.ofNat letter.toNat).toNat = letter.toNat ∧ 65 ≤ letter.toNat ∧ letter.toNat ≤ 101 := by
  simp only [Argument.isLocalLabel, Bool.or_eq_true, Bool.and_eq_true, decide_eq_true_eq,
    UInt8.le_iff_toNat_le] at isLabel
  have low : (65 : UInt8).toNat = 65 := rfl
  have high : (101 : UInt8).toNat = 101 := rfl
  have between : (74 : UInt8).toNat = 74 ∧ (97 : UInt8).toNat = 97 := ⟨rfl, rfl⟩
  have valid : letter.toNat.isValidChar := .inl (by omega)
  exact ⟨by rw [Char.ofNat, dif_pos valid]; rfl, by omega, by omega⟩

theorem isArgumentText_localLabel {letter : UInt8} (isLabel : Argument.isLocalLabel letter = true) :
    IsArgumentText [Char.ofNat letter.toNat] := by
  obtain ⟨code, low, high⟩ := toNat_localLabel isLabel
  have solid : IsSolid [Char.ofNat letter.toNat] := by
    simpa [IsSolid] using isBlank_eq_false (by omega) (by omega)
  refine isArgumentText_of_noPoint solid.isTrimmed (List.cons_ne_nil _ _) fun isPoint => ?_
  have same := congrArg Char.toNat (List.mem_singleton.mp isPoint)
  rw [code] at same
  exact absurd same (by simp; omega)

theorem directArgument_localLabel {letter : UInt8} (isLabel : Argument.isLocalLabel letter = true) :
    directArgument [Char.ofNat letter.toNat] = .ok (.localLabel letter) := by
  obtain ⟨code, low, high⟩ := toNat_localLabel isLabel
  have noQuote : Char.ofNat letter.toNat ≠ '"' := fun isQuote => by
    have same := congrArg Char.toNat isQuote
    rw [code] at same
    exact absurd same (by simp; omega)
  have noDigit : Decimal.isDigit (Char.ofNat letter.toNat) = false := by
    rw [Bool.eq_false_iff]
    intro digit
    have bounds := Decimal.code_of_isDigit digit
    omega
  rw [directArgument, trim_eq_self (isArgumentText_localLabel isLabel).trimmed]
  simp [noQuote, noDigit, code, isLabel, upper, List.isPrefixOf]
  omega

end TypedLine

namespace Instruction

/-- The text of an argument in a listing, a direct number with at least `width` digits. -/
def argumentText (width : Nat) : Argument → List Char
  | .direct operand => (operandText width operand).toList
  | .indirect operand => TypedLine.indirectWord ++ ' ' :: (operandText 2 operand).toList
  | .localLabel letter => [Char.ofNat letter.toNat]
  | .longText bytes => (quoted bytes).toList
  | _ => []

end Instruction

namespace TypedLine

variable {argument : Argument}

theorem isArgumentText_argumentText (typed : IsTypedArgument argument) (width : Nat) :
    IsArgumentText (Instruction.argumentText width argument) := by
  cases typed with
  | direct typed => exact isArgumentText_operand typed width
  | indirect typed => exact isArgumentText_indirect (isArgumentText_operand typed 2)
  | localLabel isLabel => exact isArgumentText_localLabel isLabel

theorem not_indirect_operand (typed : IsTypedOperand operand) (width : Nat) :
    ['I', 'N', 'D', ' '].isPrefixOf (upper (Instruction.operandText width operand).toList) = false := by
  cases typed with
  | number number => exact not_prefix_of_digits (Decimal.areDigitsOf_paddedDigits width _) rfl _
  | stack register => rw [toList_operandText_stack]; cases register <;> decide
  | text short => rw [Instruction.operandText, toList_quoted]; rfl

/-- An argument is read as it is listed. -/
theorem argument_argumentText (typed : IsTypedArgument argument) (width : Nat) :
    TypedLine.argument (Instruction.argumentText width argument) = .ok argument := by
  cases typed with
  | direct typed =>
      rw [Instruction.argumentText, TypedLine.argument, if_neg (by simp [not_indirect_operand typed]),
        directArgument_operandText typed]
  | indirect typed =>
      rw [Instruction.argumentText, TypedLine.argument, if_pos (by simp [indirectWord, upper])]
      simp [indirectWord, directArgument_operandText typed]
      rfl
  | localLabel isLabel =>
      rw [Instruction.argumentText, TypedLine.argument, if_neg (by simp [upper, List.isPrefixOf]),
        directArgument_localLabel isLabel]

end TypedLine

end Keystroke
