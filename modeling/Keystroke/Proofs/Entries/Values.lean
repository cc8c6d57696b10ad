import Keystroke.Proofs.Entries.Numerals
import Keystroke.Proofs.Rounding.Decimals

/-!
# Values of the numbers that are keyed in

A numeral is read as its digits and its power of ten, and rounded once. An entry reads its own with zeros for
the parts that are missing, so it always has a value or is out of range.
-/

namespace Keystroke

namespace Numeral

variable {numeral : Numeral}

/-! ## What a numeral is read as -/

theorem digitsValue_digitText (digits : List (Fin 10)) :
    Decimal.digitsValue (digitText digits) = digitsNumber digits := by
  have worth (digit : Fin 10) : (digitCharacter digit).toNat - 48 = digit.val := by
    rw [(digitCharacter_facts digit).2.2.2.2.2]
    omega
  simp only [Decimal.digitsValue, digitText, List.foldl_map, worth, digitsNumber, Nat.mul_comm]

theorem digitsNumber_append (first second : List (Fin 10)) :
    digitsNumber (first ++ second) = digitsNumber first * 10 ^ second.length + digitsNumber second := by
  induction second using List.reverseRecOn with
  | nil => simp [digitsNumber]
  | append_singleton second digit earlier =>
    have more (digits : List (Fin 10)) :
        digitsNumber (digits ++ [digit]) = 10 * digitsNumber digits + digit.val := by
      simp [digitsNumber]
    rw [← List.append_assoc, more, earlier, more, List.length_append, List.length_singleton, pow_succ]
    ring

/-- A text that does not begin with a digit. -/
def HasNoDigit (text : List Char) : Prop := ∀ character ∈ text.head?, Decimal.isDigit character = false

theorem takeWhile_digitText (digits : List (Fin 10)) {rest : List Char} (noDigit : HasNoDigit rest) :
    (digitText digits ++ rest).takeWhile Decimal.isDigit = digitText digits ∧
      (digitText digits ++ rest).dropWhile Decimal.isDigit = rest := by
  have all : ∀ character ∈ digitText digits, Decimal.isDigit character = true :=
    fun _ member => isDigit_of_mem_digitText member
  rw [List.takeWhile_append_of_pos all, List.dropWhile_append_of_pos all]
  cases rest with
  | nil => simp
  | cons first rest =>
    have first : Decimal.isDigit first = false := noDigit first rfl
    simp [first]

theorem takeSign_signText (isNegative : Bool) {digits : List (Fin 10)} (nonempty : digits ≠ [])
    (rest : List Char) : Decimal.takeSign (signText isNegative ++ (digitText digits ++ rest)) =
      (isNegative, digitText digits ++ rest) := by
  cases isNegative with
  | true => rfl
  | false =>
    cases digits with
    | nil => exact absurd rfl nonempty
    | cons digit digits =>
      obtain ⟨-, -, -, noMinus, noPlus, -⟩ := digitCharacter_facts digit
      show Decimal.takeSign (digitCharacter digit :: (digitText digits ++ rest)) = _
      rw [Decimal.takeSign]
      · rfl
      · exact fun _ same => noMinus (List.cons.inj same).1
      · exact fun _ same => noPlus (List.cons.inj same).1

theorem all_isDigit (digits : List (Fin 10)) : (digitText digits).all Decimal.isDigit = true :=
  List.all_eq_true.mpr fun _ member => isDigit_of_mem_digitText member

/-- An exponent that was begun has digits. -/
def IsComplete (numeral : Numeral) : Prop := ∀ power ∈ numeral.exponent?, power.2 ≠ []

theorem readExponent?_exponentText (complete : numeral.IsComplete) :
    Decimal.readExponent? (exponentText numeral.exponent?) = some numeral.power := by
  rw [power]
  cases exponent : numeral.exponent? with
  | none => rfl
  | some power =>
    obtain ⟨isBelow, digits⟩ := power
    have nonempty : digits ≠ [] := complete _ exponent
    have signed := takeSign_signText isBelow nonempty []
    rw [List.append_nil] at signed
    simp only [exponentText, Decimal.readExponent?, signed, all_isDigit, digitsValue_digitText]
    simp [digitText, nonempty]

theorem isComplete_of_readExponent? {power : Int}
    (reads : Decimal.readExponent? (exponentText numeral.exponent?) = some power) : numeral.IsComplete := by
  rintro ⟨isBelow, digits⟩ exponent rfl
  rw [Option.mem_def.mp exponent] at reads
  cases isBelow <;> exact absurd reads (by decide +revert)

/-- The number that a numeral is rounded to. -/
def rounded (numeral : Numeral) (power : Int) : Binary64 :=
  let magnitude := Decimal.nearest (digitsNumber (numeral.whole ++ numeral.places))
    (power - numeral.places.length)
  if numeral.isNegative then -magnitude else magnitude

theorem read?_text (leads : numeral.whole ≠ []) : Decimal.read? numeral.text =
    (Decimal.readExponent? (exponentText numeral.exponent?)).map numeral.rounded := by
  have noDigit : HasNoDigit (exponentText numeral.exponent?) := by
    cases numeral.exponent? <;> simp [exponentText, HasNoDigit, Decimal.isDigit]
  have notEmpty : (digitText numeral.whole).isEmpty = false := by simpa [digitText] using leads
  have text : numeral.text = signText numeral.isNegative ++ (digitText numeral.whole ++
      (placesText numeral.places? ++ exponentText numeral.exponent?)) := by
    simp [text, mantissaText]
  unfold Decimal.read?
  rw [text, takeSign_signText _ leads]
  cases point : numeral.places? with
  | none =>
    have none : numeral.places = [] := by rw [places, point]; rfl
    obtain ⟨whole, rest⟩ := takeWhile_digitText numeral.whole noDigit
    simp only [placesText, List.nil_append, whole, rest]
    rcases mark : exponentText numeral.exponent? with _ | ⟨first, digits⟩
    · simp [Decimal.readExponent?, notEmpty, digitsValue_digitText, rounded, none]
    · obtain rfl : first = 'E' := by
        cases power : numeral.exponent? with
        | none => rw [power, exponentText] at mark; cases mark
        | some power' => rw [power, exponentText] at mark; exact (List.cons.inj mark).1.symm
      cases exponent : Decimal.readExponent? ('E' :: digits) <;>
        simp [exponent, notEmpty, digitsValue_digitText, rounded, none]
  | some places =>
    have same : numeral.places = places := by rw [Numeral.places, point]; rfl
    have noDigitAfter : HasNoDigit ('.' :: (digitText places ++ exponentText numeral.exponent?)) := by
      simp [HasNoDigit, Decimal.isDigit]
    have length : (digitText places).length = places.length := List.length_map _
    obtain ⟨whole, rest⟩ := takeWhile_digitText numeral.whole noDigitAfter
    obtain ⟨fractional, after⟩ := takeWhile_digitText places noDigit
    simp only [placesText, List.cons_append, whole, rest, fractional, after, notEmpty, Bool.false_and,
      Bool.false_eq_true, if_false, ← digitText_append, digitsValue_digitText, length]
    cases Decimal.readExponent? (exponentText numeral.exponent?) <;> simp [rounded, same]

theorem rounds_rounded (numeral : Numeral) :
    Binary64.Rounds numeral.number (numeral.rounded numeral.power) := by
  have value : ((digitsNumber (numeral.whole ++ numeral.places) : ℕ) : ℚ) *
      10 ^ (numeral.power - numeral.places.length) =
      (digitsNumber numeral.whole + digitsNumber numeral.places / 10 ^ numeral.places.length) *
        10 ^ numeral.power := by
    rw [digitsNumber_append, zpow_sub₀ (by norm_num), zpow_natCast]
    push_cast
    field_simp
  have rounds := Decimal.rounds_nearest (digitsNumber (numeral.whole ++ numeral.places))
    (numeral.power - numeral.places.length)
  rw [value] at rounds
  rw [number, rounded]
  cases numeral.isNegative with
  | false => simpa using rounds
  | true =>
    rw [if_pos rfl, mul_assoc, neg_one_mul]
    exact rounds.neg

/-- The numeral whose missing parts are zeros. -/
def completed (numeral : Numeral) : Numeral where
  isNegative := numeral.isNegative && !numeral.whole.isEmpty
  whole := if numeral.whole = [] then [zeroDigit] else numeral.whole
  places? := numeral.places?
  exponent? := some ((numeral.exponent?.filter fun power => !power.2.isEmpty).getD (false, [zeroDigit]))

theorem power_completed (numeral : Numeral) : numeral.completed.power = numeral.power := by
  rw [power, power, completed]
  rcases numeral.exponent? with _ | ⟨_ | _, _ | ⟨digit, digits⟩⟩ <;> rfl

theorem number_completed (admitted : numeral.IsAdmitted) : numeral.completed.number = numeral.number := by
  rw [number, number, power_completed, completed, places, places]
  by_cases empty : numeral.whole = []
  · simp [empty, (admitted.leads empty).1, digitsNumber, zeroDigit]
  · simp [empty]

theorem rounded_completed (leads : numeral.whole ≠ []) : numeral.completed.rounded = numeral.rounded := by
  funext power
  simp [rounded, completed, places, leads]

theorem mantissaText_completed (admitted : numeral.IsAdmitted) :
    (if (digitText numeral.whole ++ placesText numeral.places?).isEmpty ||
        digitText numeral.whole ++ placesText numeral.places? = ['.'] then ['0']
      else numeral.mantissaText) = numeral.completed.mantissaText := by
  rw [mantissaText, mantissaText, completed]
  cases empty : numeral.whole with
  | nil => rw [(admitted.leads empty).1]; simp [digitText, placesText, signText, digitCharacter, zeroDigit]
  | cons digit digits => simp [digitText, (digitCharacter_facts digit).2.2.1]

theorem exponentText_completed (numeral : Numeral) :
    'E' :: (match numeral.exponent?.map fun power => signText power.1 ++ digitText power.2 with
      | none | some [] | some ['-'] => ['0']
      | some exponent => exponent) = exponentText numeral.completed.exponent? := by
  rw [completed]
  rcases numeral.exponent? with _ | ⟨_ | _, _ | ⟨digit, digits⟩⟩
  · rfl
  · rfl
  · obtain ⟨-, -, -, noMinus, -⟩ := digitCharacter_facts digit
    simp only [Option.map_some, exponentText, signText, digitText, List.map_cons, Bool.false_eq_true,
      if_false, List.nil_append, Option.filter, List.isEmpty_cons, Bool.not_false, if_true, Option.getD_some]
    split
    · next none => cases none
    · next empty => cases empty
    · next sign => exact absurd (List.cons.inj (Option.some.inj sign)).1 noMinus
    · next other => rw [← Option.some.inj other]
  · rfl
  · simp [exponentText, signText, digitText, Option.filter]

/-- A number that was read, which must be finite. -/
def finiteOf : Option Binary64 → Outcome Binary64
  | none => fail .invalidData
  | some value => if value.isFinite then .ok value else fail .outOfRange

/-- The value of an entry is its number, rounded. -/
theorem value_text (admitted : numeral.IsAdmitted) : (Entry.mk numeral.text).value =
    let value := numeral.completed.rounded numeral.power
    if value.isFinite then .ok value else fail .outOfRange := by
  have leads : numeral.completed.whole ≠ [] := by
    rw [completed]
    split <;> simp_all
  have complete : numeral.completed.IsComplete := by
    rw [IsComplete, completed]
    rcases numeral.exponent? with _ | ⟨_ | _, _ | ⟨digit, digits⟩⟩ <;> simp [Option.filter]
  have bare : Entry.withoutSign numeral.mantissaText =
      digitText numeral.whole ++ placesText numeral.places? := withoutSign_signText _ (hasNoSign_bare numeral)
  have parts : numeral.completed.text =
      numeral.completed.mantissaText ++ exponentText numeral.completed.exponent? := rfl
  have reads : (Entry.mk numeral.text).value = finiteOf (Decimal.read? numeral.completed.text) := by
    rw [parts, ← mantissaText_completed admitted, ← exponentText_completed, ← bare, ← mantissa_text numeral,
      ← exponent?_text numeral]
    rfl
  rw [reads, read?_text leads, readExponent?_exponentText complete, power_completed]
  rfl

/-- A text that can be read as it stands has the same value when its missing parts are zeros. -/
theorem value_of_read? (admitted : numeral.IsAdmitted) {value : Binary64}
    (reads : Decimal.read? numeral.text = some value) (finite : value.isFinite = true) :
    (Entry.mk numeral.text).value = .ok value := by
  have leads : numeral.whole ≠ [] := by
    intro empty
    obtain ⟨noPlaces, noExponent⟩ := admitted.leads empty
    rw [text, mantissaText, empty, noPlaces, noExponent] at reads
    cases sign : numeral.isNegative <;> rw [sign] at reads <;> cases reads
  rw [read?_text leads] at reads
  obtain ⟨power, exponent, same⟩ := Option.map_eq_some_iff.mp reads
  rw [readExponent?_exponentText (isComplete_of_readExponent? exponent)] at exponent
  rw [value_text admitted, rounded_completed leads, Option.some.inj exponent, same]
  exact if_pos finite

end Numeral

namespace Entry

/-- Whatever keys are pressed, an entry shows a numeral, and its value is what the number of that numeral is
rounded to. -/
theorem keyed_isNumeral (keys : List EntryKey) :
    ∃ numeral : Numeral, (keyed keys).text = numeral.text ∧ numeral.IsAdmitted ∧
      (∃ x, Binary64.Rounds numeral.number x ∧
        (keyed keys).value = if x.isFinite then .ok x else fail .outOfRange) ∧
      (keyed keys).changeSign.changeSign = keyed keys := by
  obtain ⟨same, admitted⟩ := foldl_press_text isAdmitted_empty keys
  have shown : keyed keys = ⟨(keys.foldl Numeral.press {}).text⟩ := same
  refine ⟨keys.foldl Numeral.press {}, ?_, admitted,
    ⟨(keys.foldl Numeral.press {}).completed.rounded (keys.foldl Numeral.press {}).power, ?_, ?_⟩, ?_⟩
  · rw [shown]
  · rw [← Numeral.number_completed admitted, ← Numeral.power_completed]
    exact Numeral.rounds_rounded _
  · rw [shown, Numeral.value_text admitted]
  · rw [shown]
    exact changeSign_changeSign_text _

end Entry

end Keystroke
