import Mathlib
import Keystroke.Text.Blank

/-!
# Words of a text

A text is trimmed if it neither begins nor ends with a blank. Its words are found one by one: a run of
other characters up to a blank is a word, and behind it the text goes on.
-/

namespace Keystroke.Text

/-! ## Trimming -/

/-- A text that neither begins nor ends with a blank. -/
structure IsTrimmed (text : List Char) : Prop where
  head : ∀ character ∈ text.head?, isBlank character = false
  last : ∀ character ∈ text.getLast?, isBlank character = false

/-- Characters of which none is blank. -/
def IsSolid (text : List Char) : Prop := ∀ character ∈ text, isBlank character = false

/-- Between the space and the delete character nothing is blank. -/
theorem isBlank_eq_false {character : Char} (above : 32 < character.toNat)
    (below : character.toNat < 128) : isBlank character = false := by
  simp only [isBlank, blankRanges, List.any_eq_false, List.mem_cons, List.not_mem_nil, or_false]
  rintro range (rfl | rfl | rfl | rfl | rfl | rfl | rfl | rfl | rfl | rfl) <;> simp <;> omega

instance (text : List Char) : Decidable (IsSolid text) := List.decidableBAll _ text

theorem dropWhile_eq_self {text : List Char} (head : ∀ character ∈ text.head?, isBlank character = false) :
    text.dropWhile isBlank = text := by
  cases text with
  | nil => rfl
  | cons character rest => exact List.dropWhile_cons_of_neg (by simp [head character rfl])

theorem trim_eq_self {text : List Char} (trimmed : IsTrimmed text) : trim text = text := by
  rw [trim, trimLeft, dropWhile_eq_self trimmed.head, trimRight, dropWhile_eq_self, List.reverse_reverse]
  simpa using trimmed.last

theorem head?_dropWhile (text : List Char) :
    ∀ character ∈ (text.dropWhile isBlank).head?, isBlank character = false := by
  intro character isHead
  have stops := List.head?_dropWhile_not isBlank text
  rw [Option.mem_def] at isHead
  simpa [isHead] using stops

theorem isTrimmed_trim (text : List Char) : IsTrimmed (trim text) := by
  refine ⟨fun character isHead => ?_, fun character isLast => ?_⟩
  · -- What is dropped at the end does not change the head.
    obtain ⟨dropped, parts⟩ := List.dropWhile_suffix (l := (trimLeft text).reverse) isBlank
    have whole : trimLeft text = trim text ++ dropped.reverse := by
      have reversed := congrArg List.reverse parts
      rw [List.reverse_append, List.reverse_reverse] at reversed
      exact reversed.symm
    refine head?_dropWhile text character ?_
    rw [Option.mem_def] at isHead ⊢
    rw [← trimLeft, whole, List.head?_append, isHead, Option.some_or]
  · refine head?_dropWhile (trimLeft text).reverse character ?_
    rwa [trim, trimRight, List.getLast?_reverse] at isLast

theorem IsSolid.isTrimmed {text : List Char} (solid : IsSolid text) : IsTrimmed text :=
  ⟨fun character isHead => solid character (List.mem_of_head? isHead),
    fun character isLast => solid character (List.mem_of_getLast? isLast)⟩

/-- A text is trimmed if its parts at both ends are. -/
theorem IsTrimmed.append {first last : List Char} (trimmedFirst : IsTrimmed first) (notEmptyFirst : first ≠ [])
    (trimmedLast : IsTrimmed last) (notEmptyLast : last ≠ []) (between : List Char) :
    IsTrimmed (first ++ between ++ last) := by
  refine ⟨fun character isHead => trimmedFirst.head character ?_,
    fun character isLast => trimmedLast.last character ?_⟩
  · rwa [List.append_assoc, List.head?_append_of_ne_nil _ notEmptyFirst] at isHead
  · rwa [List.getLast?_append_of_ne_nil _ notEmptyLast] at isLast

/-! ## Words -/

theorem go_solid {word : List Char} (solid : IsSolid word) (before rest : List Char) :
    words.go before (word ++ rest) = words.go (word.reverse ++ before) rest := by
  induction word generalizing before with
  | nil => rfl
  | cons character word ih =>
      have plain := solid character List.mem_cons_self
      rw [List.cons_append, words.go, plain, if_neg Bool.false_ne_true,
        ih (fun other member => solid other (List.mem_cons_of_mem _ member)), List.reverse_cons,
        List.append_assoc, List.singleton_append]

theorem words_of_solid {word : List Char} (solid : IsSolid word) (notEmpty : word ≠ []) :
    words word = [word] := by
  have run := go_solid solid [] []
  rw [List.append_nil, List.append_nil] at run
  rw [words, run, words.go, if_neg (by simpa using notEmpty), List.reverse_reverse]

theorem words_append {word : List Char} (solid : IsSolid word) (notEmpty : word ≠ []) {blank : Char}
    (isBlank : isBlank blank = true) (rest : List Char) :
    words (word ++ blank :: rest) = word :: words rest := by
  rw [words, go_solid solid, List.append_nil, words.go, isBlank, if_pos rfl,
    if_neg (by simpa using notEmpty), List.reverse_reverse, words]

/-- The first word of a text that does not begin with a blank. -/
theorem exists_words {text : List Char} (trimmed : IsTrimmed text) (notEmpty : text ≠ []) :
    ∃ rest, words text = text.takeWhile (fun character => !isBlank character) :: rest := by
  obtain ⟨character, others, rfl⟩ := List.exists_cons_of_ne_nil notEmpty
  have plain : isBlank character = false := trimmed.head character rfl
  have solid : IsSolid ((character :: others).takeWhile fun character => !isBlank character) :=
    fun other member => by simpa using List.mem_takeWhile_imp member
  have begins : (character :: others).takeWhile (fun character => !isBlank character) ≠ [] := by
    simp [plain]
  have parts := List.takeWhile_append_dropWhile (p := fun character => !isBlank character)
    (l := character :: others)
  rcases behind : (character :: others).dropWhile fun character => !isBlank character with
    _ | ⟨blank, rest⟩
  · rw [behind, List.append_nil] at parts
    exact ⟨[], by rw [parts] at solid begins ⊢; exact words_of_solid solid begins⟩
  · have ends : isBlank blank = true := by
      have stops := List.head?_dropWhile_not (fun character => !isBlank character) (character :: others)
      simpa [behind] using stops
    rw [behind] at parts
    refine ⟨words rest, ?_⟩
    conv_lhs => rw [← parts]
    exact words_append solid begins ends rest

/-! ## Behind the first words -/

theorem trimLeft_blank {blank : Char} (isBlank : isBlank blank = true) (rest : List Char) :
    trimLeft (blank :: rest) = trimLeft rest := by
  rw [trimLeft, List.dropWhile_cons_of_pos isBlank, trimLeft]

theorem afterWords_blank {blank : Char} (isBlank : isBlank blank = true) (count : Nat) (rest : List Char) :
    afterWords count (blank :: rest) = afterWords count rest := by
  cases count with
  | zero => rw [afterWords, afterWords, trim, trim, trimLeft_blank isBlank]
  | succ count => rw [afterWords, afterWords, trimLeft_blank isBlank]

theorem afterWords_append {word : List Char} (solid : IsSolid word) (notEmpty : word ≠ []) {blank : Char}
    (isBlank : isBlank blank = true) (count : Nat) (rest : List Char) :
    afterWords (count + 1) (word ++ blank :: rest) = afterWords count rest := by
  obtain ⟨character, others, rfl⟩ := List.exists_cons_of_ne_nil notEmpty
  have starts : trimLeft (character :: others ++ blank :: rest) = character :: others ++ blank :: rest :=
    dropWhile_eq_self fun head isHead => solid head (by simp_all)
  rw [afterWords, starts, List.dropWhile_append_of_pos (fun other member => by simp [solid other member]),
    List.dropWhile_cons_of_neg (by simp [isBlank]), afterWords_blank isBlank]

theorem afterWords_of_solid {word : List Char} (solid : IsSolid word) : afterWords 1 word = [] := by
  have starts : trimLeft word = word := dropWhile_eq_self solid.isTrimmed.head
  have ends : word.dropWhile (fun character => !isBlank character) = [] :=
    List.dropWhile_eq_nil_iff.mpr fun other member => by simp [solid other member]
  rw [afterWords, starts, ends]
  rfl

/-! ## Words with single blanks between them -/

section Joined

variable {parts : List (List Char)}

/-- Words with a blank between each two of them. -/
def joined (parts : List (List Char)) : List Char := List.intercalate [' '] parts

/-- At least one word. -/
inductive AreWords : List (List Char) → Prop
  | single {word : List Char} (solid : IsSolid word) (notEmpty : word ≠ []) : AreWords [word]
  | more {word next : List Char} {others : List (List Char)} (solid : IsSolid word) (notEmpty : word ≠ [])
    (areWords : AreWords (next :: others)) : AreWords (word :: next :: others)

@[simp]
theorem joined_singleton (word : List Char) : joined [word] = word := by
  simp [joined, List.intercalate]

@[simp]
theorem joined_cons_cons (word next : List Char) (others : List (List Char)) :
    joined (word :: next :: others) = word ++ ' ' :: joined (next :: others) := by
  simp [joined, List.intercalate]

theorem AreWords.joined_ne_nil (areWords : AreWords parts) : joined parts ≠ [] := by
  cases areWords with
  | single solid notEmpty => simpa using notEmpty
  | more solid notEmpty areWords => simp

theorem AreWords.isTrimmed (areWords : AreWords parts) : IsTrimmed (joined parts) := by
  induction areWords with
  | single solid notEmpty => exact (joined_singleton _).symm ▸ solid.isTrimmed
  | more solid notEmpty areWords ih =>
      rw [joined_cons_cons, List.append_cons]
      exact solid.isTrimmed.append notEmpty ih areWords.joined_ne_nil [' ']

theorem AreWords.words_joined (areWords : AreWords parts) : words (joined parts) = parts := by
  induction areWords with
  | single solid notEmpty => rw [joined_singleton, words_of_solid solid notEmpty]
  | more solid notEmpty areWords ih => rw [joined_cons_cons, words_append solid notEmpty (by decide), ih]

theorem AreWords.words_append (areWords : AreWords parts) (rest : List Char) :
    words (joined parts ++ ' ' :: rest) = parts ++ words rest := by
  induction areWords with
  | single solid notEmpty => rw [joined_singleton, Text.words_append solid notEmpty (by decide)]; rfl
  | more solid notEmpty areWords ih =>
      rw [joined_cons_cons, List.append_assoc, List.cons_append,
        Text.words_append solid notEmpty (by decide), ih]
      rfl

theorem AreWords.afterWords_joined (areWords : AreWords parts) :
    afterWords parts.length (joined parts) = [] := by
  induction areWords with
  | single solid notEmpty => rw [joined_singleton, List.length_singleton, afterWords_of_solid solid]
  | more solid notEmpty areWords ih =>
      rw [joined_cons_cons, List.length_cons, Text.afterWords_append solid notEmpty (by decide), ih]

theorem AreWords.afterWords_append (areWords : AreWords parts) (rest : List Char) :
    afterWords parts.length (joined parts ++ ' ' :: rest) = trim rest := by
  induction areWords with
  | single solid notEmpty =>
      rw [joined_singleton, List.length_singleton, Text.afterWords_append solid notEmpty (by decide),
        afterWords]
  | more solid notEmpty areWords ih =>
      rw [joined_cons_cons, List.append_assoc, List.cons_append, List.length_cons,
        Text.afterWords_append solid notEmpty (by decide), ih]

end Joined

end Keystroke.Text
