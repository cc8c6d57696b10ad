import Mathlib
import Keystroke.Entry

/-!
# Numbers that are keyed in

Whatever keys are pressed, the text of an entry is a numeral: what each key does to the text, it does to the
parts of the numeral.
-/

namespace Keystroke

/-- A key that changes the number that is being keyed in. -/
inductive EntryKey where
  | digit (value : Fin 10)
  | point
  | exponent
  | changeSign
  | backspace
deriving DecidableEq

/-- A numeral: the digits in front of the point, those behind it and an exponent, the last two if they
were begun. -/
structure Numeral where
  isNegative : Bool := false
  whole : List (Fin 10) := []
  places? : Option (List (Fin 10)) := none
  exponent? : Option (Bool × List (Fin 10)) := none
deriving DecidableEq

namespace Numeral

def zeroDigit : Fin 10 := 0

def digitCharacter (digit : Fin 10) : Char := Char.ofNat (48 + digit)

def digitText (digits : List (Fin 10)) : List Char := digits.map digitCharacter

def signText (isNegative : Bool) : List Char := if isNegative then ['-'] else []

def placesText : Option (List (Fin 10)) → List Char
  | none => []
  | some places => '.' :: digitText places

def exponentText : Option (Bool × List (Fin 10)) → List Char
  | none => []
  | some (isNegative, digits) => 'E' :: (signText isNegative ++ digitText digits)

variable (numeral : Numeral)

def mantissaText : List Char :=
  signText numeral.isNegative ++ (digitText numeral.whole ++ placesText numeral.places?)

def text : List Char := numeral.mantissaText ++ exponentText numeral.exponent?

def places : List (Fin 10) := numeral.places?.getD []

/-- What an entry admits: the digits have room, and one stands in front of the point and the exponent. -/
structure IsAdmitted : Prop where
  mantissa : numeral.whole.length + numeral.places.length ≤ 12
  exponent : ∀ power ∈ numeral.exponent?, power.2.length ≤ 3
  leads : numeral.whole = [] → numeral.places? = none ∧ numeral.exponent? = none

/-- The number that a run of digits denotes. -/
def digitsNumber (digits : List (Fin 10)) : Nat :=
  digits.foldl (fun number digit => 10 * number + digit.val) 0

/-- The power of ten; without digits it is zero. -/
def power : Int :=
  match numeral.exponent? with
  | none => 0
  | some (isNegative, digits) => if isNegative then -(digitsNumber digits : Int) else digitsNumber digits

/-- The number that a numeral denotes; a part without digits counts as zero. -/
def number : ℚ :=
  (if numeral.isNegative then -1 else 1) *
    (digitsNumber numeral.whole + digitsNumber numeral.places / 10 ^ numeral.places.length) *
      10 ^ numeral.power

/-! ## Keys -/

/-- Whether the part that is being keyed in has all its digits. -/
def isFull : Bool :=
  match numeral.exponent? with
  | some power => decide (3 ≤ power.2.length)
  | none => decide (12 ≤ numeral.whole.length + numeral.places.length)

def withDigit (digit : Fin 10) : Numeral :=
  if numeral.isFull then numeral
  else
    match numeral.exponent?, numeral.places? with
    | some (isNegative, digits), _ => { numeral with exponent? := some (isNegative, digits ++ [digit]) }
    | none, some places => { numeral with places? := some (places ++ [digit]) }
    | none, none => { numeral with whole := numeral.whole ++ [digit] }

def withPoint : Numeral :=
  if numeral.places?.isSome || numeral.exponent?.isSome then numeral
  else
    { numeral with
      whole := if numeral.whole = [] then [0] else numeral.whole
      places? := some [] }

def withExponent : Numeral :=
  if numeral.exponent?.isSome then numeral
  else
    { numeral with
      whole := if numeral.whole = [] then [1] else numeral.whole
      exponent? := some (false, []) }

def withChangedSign : Numeral :=
  match numeral.exponent? with
  | some (isNegative, digits) => { numeral with exponent? := some (!isNegative, digits) }
  | none => { numeral with isNegative := !numeral.isNegative }

/-- Take the last character away. -/
def shortened : Numeral :=
  match numeral.exponent?, numeral.places? with
  | some (isNegative, digits), _ =>
    if digits ≠ [] then { numeral with exponent? := some (isNegative, digits.dropLast) }
    else { numeral with exponent? := if isNegative then some (false, []) else none }
  | none, some places =>
    { numeral with places? := if places = [] then none else some places.dropLast }
  | none, none =>
    if numeral.whole = [] then { numeral with isNegative := false }
    else { numeral with whole := numeral.whole.dropLast }

def press : EntryKey → Numeral
  | .digit value => numeral.withDigit value
  | .point => numeral.withPoint
  | .exponent => numeral.withExponent
  | .changeSign => numeral.withChangedSign
  | .backspace => numeral.shortened

/-! ## The characters of a numeral -/

theorem digitCharacter_facts : ∀ digit : Fin 10, Decimal.isDigit (digitCharacter digit) = true ∧
    digitCharacter digit ≠ 'E' ∧ digitCharacter digit ≠ '.' ∧ digitCharacter digit ≠ '-' ∧
      digitCharacter digit ≠ '+' ∧ (digitCharacter digit).toNat = 48 + digit := by
  decide

variable {numeral} {character : Char}

theorem exists_of_mem_digitText {digits : List (Fin 10)} (member : character ∈ digitText digits) :
    ∃ digit, digitCharacter digit = character := by
  obtain ⟨digit, -, same⟩ := List.mem_map.mp member
  exact ⟨digit, same⟩

theorem isDigit_of_mem_digitText {digits : List (Fin 10)} (member : character ∈ digitText digits) :
    Decimal.isDigit character = true := by
  obtain ⟨digit, rfl⟩ := exists_of_mem_digitText member
  exact (digitCharacter_facts digit).1

theorem of_mem_mantissaText (member : character ∈ numeral.mantissaText) :
    character = '-' ∨ character = '.' ∨ ∃ digit, digitCharacter digit = character := by
  rw [mantissaText, List.mem_append, List.mem_append] at member
  obtain sign | whole | places := member
  · rw [signText] at sign
    split at sign
    · exact .inl (List.mem_singleton.mp sign)
    · cases sign
  · exact .inr (.inr (exists_of_mem_digitText whole))
  · cases point : numeral.places? with
    | none => simp [point, placesText] at places
    | some digits =>
      rw [point, placesText, List.mem_cons] at places
      obtain rfl | places := places
      · exact .inr (.inl rfl)
      · exact .inr (.inr (exists_of_mem_digitText places))

theorem ne_mark_of_mem_mantissaText (member : character ∈ numeral.mantissaText) : character ≠ 'E' := by
  rintro rfl
  obtain sign | point | ⟨digit, same⟩ := of_mem_mantissaText member
  · exact absurd sign (by decide)
  · exact absurd point (by decide)
  · exact (digitCharacter_facts digit).2.1 same

theorem mantissa_text (numeral : Numeral) : (Entry.mk numeral.text).mantissa = numeral.mantissaText := by
  rw [Entry.mantissa, text, List.takeWhile_append_of_pos
    fun character member => by simpa using ne_mark_of_mem_mantissaText member]
  cases numeral.exponent? <;> simp [exponentText]

theorem exponent?_text (numeral : Numeral) : (Entry.mk numeral.text).exponent? =
    numeral.exponent?.map fun power => signText power.1 ++ digitText power.2 := by
  rw [Entry.exponent?, text, List.dropWhile_append_of_pos
    fun character member => by simpa using ne_mark_of_mem_mantissaText member]
  cases numeral.exponent? <;> simp [exponentText]

/-- A text that does not begin with a minus sign. -/
def HasNoSign (text : List Char) : Prop := text.head? ≠ some '-'

theorem hasNoSign_digitText (digits : List (Fin 10)) {rest : List Char} (noSign : HasNoSign rest) :
    HasNoSign (digitText digits ++ rest) := by
  cases digits with
  | nil => exact noSign
  | cons digit digits => simp [HasNoSign, digitText, (digitCharacter_facts digit).2.2.2.1]

theorem hasNoSign_bare (numeral : Numeral) :
    HasNoSign (digitText numeral.whole ++ placesText numeral.places?) := by
  apply hasNoSign_digitText
  cases numeral.places? <;> simp [HasNoSign, placesText]

theorem hasNoSign_digits (digits : List (Fin 10)) : HasNoSign (digitText digits) := by
  simpa using @hasNoSign_digitText digits [] (by simp [HasNoSign])

theorem withoutSign_signText (isNegative : Bool) {rest : List Char} (noSign : HasNoSign rest) :
    Entry.withoutSign (signText isNegative ++ rest) = rest := by
  have unsigned : Entry.withoutSign rest = rest := by
    cases rest with
    | nil => rfl
    | cons first rest => simp_all [Entry.withoutSign, HasNoSign]
  cases isNegative with
  | false => exact unsigned
  | true => exact unsigned

theorem toggleSign_signText (isNegative : Bool) {rest : List Char} (noSign : HasNoSign rest) :
    Entry.toggleSign (signText isNegative ++ rest) = signText (!isNegative) ++ rest := by
  cases isNegative with
  | true => rfl
  | false =>
    cases rest with
    | nil => rfl
    | cons first rest =>
      show Entry.toggleSign (first :: rest) = '-' :: first :: rest
      rw [Entry.toggleSign]
      intro rest' same
      exact noSign (congrArg List.head? same)

theorem digitText_append (first second : List (Fin 10)) :
    digitText (first ++ second) = digitText first ++ digitText second :=
  List.map_append

theorem utf8ByteSize_digitText (digits : List (Fin 10)) :
    (String.ofList (digitText digits)).utf8ByteSize = digits.length := by
  induction digits with
  | nil => rfl
  | cons digit digits rest =>
    have one : (digitCharacter digit).utf8Size = 1 := by revert digit; decide
    have first : digitText (digit :: digits) = digitCharacter digit :: digitText digits := rfl
    rw [first, String.ofList_cons, String.utf8ByteSize_append, String.utf8ByteSize_singleton, one, rest,
      List.length_cons, Nat.add_comm]

theorem filter_isDigit_mantissaText (numeral : Numeral) :
    (numeral.mantissaText.filter Decimal.isDigit).length = numeral.whole.length + numeral.places.length := by
  have all (digits : List (Fin 10)) : (digitText digits).filter Decimal.isDigit = digitText digits :=
    List.filter_eq_self.mpr fun _ member => isDigit_of_mem_digitText member
  have sign : (signText numeral.isNegative).filter Decimal.isDigit = [] := by
    cases numeral.isNegative <;> rfl
  have point : Decimal.isDigit '.' = false := rfl
  rw [mantissaText, List.filter_append, List.filter_append, sign, all, places]
  cases numeral.places? with
  | none => simp [placesText, digitText]
  | some digits => rw [placesText, List.filter_cons_of_neg (by simp [point]), all]; simp [digitText]

theorem contains_point (numeral : Numeral) : numeral.text.contains '.' = numeral.places?.isSome := by
  have noDigit (digits : List (Fin 10)) : '.' ∉ digitText digits := fun member => by
    obtain ⟨digit, same⟩ := exists_of_mem_digitText member
    exact (digitCharacter_facts digit).2.2.1 same
  have noSign (isNegative : Bool) : '.' ∉ signText isNegative := by cases isNegative <;> decide
  rw [text, mantissaText]
  rcases numeral.places? with _ | places <;> rcases numeral.exponent? with _ | ⟨isNegative, digits⟩ <;>
    simp [placesText, exponentText, noDigit, noSign]

theorem contains_mark (numeral : Numeral) : numeral.text.contains 'E' = numeral.exponent?.isSome := by
  have absent : 'E' ∉ numeral.mantissaText := fun member => ne_mark_of_mem_mantissaText member rfl
  rw [text]
  cases numeral.exponent? <;> simp [exponentText, absent]

theorem any_isDigit (digits : List (Fin 10)) : (digitText digits).any Decimal.isDigit = !digits.isEmpty := by
  cases digits with
  | nil => rfl
  | cons digit digits => simp [digitText, (digitCharacter_facts digit).1]

/-! ## What the keys do to the text -/

theorem isFull_text (numeral : Numeral) : (Entry.mk numeral.text).isFull = numeral.isFull := by
  rw [Entry.isFull, exponent?_text, mantissa_text, filter_isDigit_mantissaText, isFull]
  cases numeral.exponent? with
  | none => rfl
  | some power =>
    simp only [Option.map_some, withoutSign_signText _ (hasNoSign_digits _), utf8ByteSize_digitText]
    rfl

theorem digit_text (numeral : Numeral) (digit : Fin 10) :
    (Entry.mk numeral.text).digit (digitCharacter digit) = ⟨(numeral.withDigit digit).text⟩ := by
  have one (digits : List (Fin 10)) : digitText digits ++ [digitCharacter digit] =
      digitText (digits ++ [digit]) := by
    rw [digitText_append]
    rfl
  rw [Entry.digit, isFull_text, withDigit]
  split
  · rfl
  · rcases numeral with ⟨isNegative, whole, _ | places, _ | ⟨isBelow, digits⟩⟩ <;>
      simp [text, mantissaText, placesText, exponentText, one]

theorem dot_text (numeral : Numeral) : (Entry.mk numeral.text).dot = ⟨numeral.withPoint.text⟩ := by
  rw [Entry.dot, contains_point, contains_mark, withPoint]
  split
  · rfl
  · next bare =>
    obtain ⟨isNegative, whole, places?, exponent?⟩ := numeral
    obtain ⟨rfl, rfl⟩ : places? = none ∧ exponent? = none := by simpa using bare
    rw [mantissa_text, mantissaText, withoutSign_signText _ (hasNoSign_bare _)]
    cases whole with
    | nil => simp [text, mantissaText, placesText, exponentText, digitText, digitCharacter]
    | cons digit whole => simp [text, mantissaText, placesText, exponentText, digitText]

theorem any_isDigit_text (admitted : numeral.IsAdmitted) (bare : numeral.exponent? = none) :
    numeral.text.any Decimal.isDigit = !numeral.whole.isEmpty := by
  have sign : (signText numeral.isNegative).any Decimal.isDigit = false := by
    cases numeral.isNegative <;> rfl
  rw [text, mantissaText, bare, exponentText, List.append_nil, List.any_append, List.any_append, sign,
    any_isDigit, Bool.false_or]
  cases empty : numeral.whole with
  | nil => rw [(admitted.leads empty).1, placesText]; rfl
  | cons digit digits => rfl

theorem exponent_text (admitted : numeral.IsAdmitted) :
    (Entry.mk numeral.text).exponent = ⟨numeral.withExponent.text⟩ := by
  rw [Entry.exponent, contains_mark, withExponent]
  split
  · rfl
  · next bare =>
    have bare : numeral.exponent? = none := by simpa using bare
    rw [any_isDigit_text admitted bare]
    obtain ⟨isNegative, whole, places?, exponent?⟩ := numeral
    obtain rfl := bare
    cases whole with
    | nil =>
      obtain ⟨rfl, -⟩ := admitted.leads rfl
      simp [text, mantissaText, placesText, exponentText, digitText, digitCharacter, signText]
    | cons digit whole => simp [text, mantissaText, exponentText, signText, digitText]

theorem changeSign_text (numeral : Numeral) :
    (Entry.mk numeral.text).changeSign = ⟨numeral.withChangedSign.text⟩ := by
  rw [Entry.changeSign, exponent?_text, mantissa_text, withChangedSign]
  cases exponent : numeral.exponent? with
  | none =>
    simp only [Option.map_none, text, mantissaText, exponent, exponentText, List.append_nil]
    rw [toggleSign_signText _ (hasNoSign_bare _)]
  | some power =>
    simp only [Option.map_some, text, mantissaText, exponentText]
    rw [toggleSign_signText _ (hasNoSign_digits _)]

theorem backspace_text (numeral : Numeral) : numeral.text.dropLast = numeral.shortened.text := by
  have dropLast_digits (front : List Char) {digits : List (Fin 10)} (some : digits ≠ []) :
      (front ++ digitText digits).dropLast = front ++ digitText digits.dropLast := by
    rw [List.dropLast_append_of_ne_nil (by simpa [digitText] using some), digitText, ← List.map_dropLast]
    rfl
  rw [shortened]
  obtain ⟨isNegative, whole, places?, _ | ⟨isBelow, digits⟩⟩ := numeral
  · cases places? with
    | none =>
      by_cases empty : whole = []
      · cases isNegative <;> simp [empty, text, mantissaText, placesText, exponentText, digitText, signText]
      · simp [empty, text, mantissaText, placesText, exponentText, dropLast_digits]
    | some places =>
      by_cases empty : places = []
      · simp [empty, text, mantissaText, placesText, exponentText, digitText, ← List.append_assoc]
      · have parts (last : List (Fin 10)) : text ⟨isNegative, whole, some last, none⟩ =
            signText isNegative ++ digitText whole ++ ['.'] ++ digitText last := by
          simp [text, mantissaText, placesText, exponentText]
        simp only [parts, dropLast_digits _ empty, if_neg empty]
  · by_cases empty : digits = []
    · cases isBelow <;> simp [empty, text, mantissaText, placesText, exponentText, digitText, signText]
    · have parts (last : List (Fin 10)) : text ⟨isNegative, whole, places?, some (isBelow, last)⟩ =
          mantissaText ⟨isNegative, whole, places?, none⟩ ++ ['E'] ++ signText isBelow ++ digitText last := by
        simp [text, mantissaText, exponentText]
      simp only [parts, dropLast_digits _ empty, ne_eq, empty, not_false_eq_true, if_true]

/-! ## What the keys keep -/

theorem IsAdmitted.withDigit (admitted : numeral.IsAdmitted) (digit : Fin 10) :
    (numeral.withDigit digit).IsAdmitted := by
  obtain ⟨mantissa, exponent, leads⟩ := admitted
  rw [Numeral.withDigit]
  split
  · exact ⟨mantissa, exponent, leads⟩
  · next room =>
    obtain ⟨isNegative, whole, places?, _ | ⟨isBelow, digits⟩⟩ := numeral
    · have room : ¬12 ≤ whole.length + (places?.getD []).length := fun full => room (decide_eq_true full)
      cases places? with
      | none => exact ⟨by simpa [Numeral.places] using room, exponent, by simp⟩
      | some places =>
        refine ⟨?_, exponent, fun empty => by simpa using leads empty⟩
        simp only [Numeral.places, Option.getD_some, List.length_append, List.length_singleton] at room ⊢
        omega
    · have room : ¬3 ≤ digits.length := fun full => room (decide_eq_true full)
      exact ⟨mantissa, by simpa using room, fun empty => by simpa using leads empty⟩

theorem IsAdmitted.withPoint (admitted : numeral.IsAdmitted) : numeral.withPoint.IsAdmitted := by
  obtain ⟨mantissa, exponent, leads⟩ := admitted
  rw [Numeral.withPoint]
  split
  · exact ⟨mantissa, exponent, leads⟩
  · rcases numeral with ⟨isNegative, _ | ⟨digit, whole⟩, _ | places, _ | power⟩ <;>
      refine ⟨?_, ?_, ?_⟩ <;> simp_all [Numeral.places]

theorem IsAdmitted.withExponent (admitted : numeral.IsAdmitted) : numeral.withExponent.IsAdmitted := by
  obtain ⟨mantissa, exponent, leads⟩ := admitted
  rw [Numeral.withExponent]
  split
  · exact ⟨mantissa, exponent, leads⟩
  · rcases numeral with ⟨isNegative, _ | ⟨digit, whole⟩, _ | places, _ | power⟩ <;>
      refine ⟨?_, ?_, ?_⟩ <;> simp_all [Numeral.places]

theorem IsAdmitted.withChangedSign (admitted : numeral.IsAdmitted) :
    numeral.withChangedSign.IsAdmitted := by
  obtain ⟨mantissa, exponent, leads⟩ := admitted
  rw [Numeral.withChangedSign]
  split
  · next isBelow digits power =>
    exact ⟨mantissa, by simpa [power] using exponent, fun empty => by simpa [power] using leads empty⟩
  · exact ⟨mantissa, exponent, leads⟩

theorem IsAdmitted.shortened (admitted : numeral.IsAdmitted) : numeral.shortened.IsAdmitted := by
  obtain ⟨mantissa, exponent, leads⟩ := admitted
  rw [Numeral.shortened]
  split
  · next isBelow digits power =>
    have bound : digits.length ≤ 3 := exponent _ power
    have some : numeral.whole ≠ [] := fun empty => by simp [(leads empty).2] at power
    split
    · exact ⟨mantissa, by simp; omega, fun empty => absurd empty some⟩
    · exact ⟨mantissa, by cases isBelow <;> simp, fun empty => absurd empty some⟩
  · next places noPower point =>
    have some : numeral.whole ≠ [] := fun empty => by simp [(leads empty).1] at point
    refine ⟨?_, by simp [noPower], fun empty => absurd empty some⟩
    rw [Numeral.places, point] at mantissa
    simp only [Numeral.places, Option.getD_some] at mantissa ⊢
    split <;> simp at * <;> omega
  · next noPower noPoint =>
    split
    · exact ⟨mantissa, exponent, leads⟩
    · refine ⟨?_, exponent, fun _ => ⟨noPoint, noPower⟩⟩
      simp only [Numeral.places, noPoint, List.length_dropLast] at mantissa ⊢
      omega

theorem IsAdmitted.press (admitted : numeral.IsAdmitted) (key : EntryKey) :
    (numeral.press key).IsAdmitted := by
  cases key with
  | digit value => exact admitted.withDigit value
  | point => exact admitted.withPoint
  | exponent => exact admitted.withExponent
  | changeSign => exact admitted.withChangedSign
  | backspace => exact admitted.shortened

end Numeral

/-! ## Sequences of keys -/

namespace Entry

def press (entry : Entry) : EntryKey → Entry
  | .digit value => entry.digit (Numeral.digitCharacter value)
  | .point => entry.dot
  | .exponent => entry.exponent
  | .changeSign => entry.changeSign
  | .backspace => entry.backspace.2

/-- The entry that keys make of the empty one. -/
def keyed (keys : List EntryKey) : Entry := keys.foldl press empty

variable {numeral : Numeral}

theorem press_text (admitted : numeral.IsAdmitted) (key : EntryKey) :
    (Entry.mk numeral.text).press key = ⟨(numeral.press key).text⟩ := by
  cases key with
  | digit value => exact Numeral.digit_text numeral value
  | point => exact Numeral.dot_text numeral
  | exponent => exact Numeral.exponent_text admitted
  | changeSign => exact Numeral.changeSign_text numeral
  | backspace => exact congrArg Entry.mk (Numeral.backspace_text numeral)

theorem foldl_press_text (admitted : numeral.IsAdmitted) (keys : List EntryKey) :
    keys.foldl press ⟨numeral.text⟩ = ⟨(keys.foldl Numeral.press numeral).text⟩ ∧
      (keys.foldl Numeral.press numeral).IsAdmitted := by
  induction keys generalizing numeral with
  | nil => exact ⟨rfl, admitted⟩
  | cons key keys rest =>
    rw [List.foldl_cons, List.foldl_cons, press_text admitted]
    exact rest (admitted.press key)

theorem isAdmitted_empty : Numeral.IsAdmitted {} := ⟨by decide, nofun, fun _ => ⟨rfl, rfl⟩⟩

theorem changeSign_changeSign_text (numeral : Numeral) :
    (Entry.mk numeral.text).changeSign.changeSign = ⟨numeral.text⟩ := by
  rw [Numeral.changeSign_text, Numeral.changeSign_text]
  obtain ⟨isNegative, whole, places?, _ | ⟨isBelow, digits⟩⟩ := numeral <;> simp [Numeral.withChangedSign]

end Entry

end Keystroke
