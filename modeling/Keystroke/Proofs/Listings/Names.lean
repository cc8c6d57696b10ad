import Mathlib
import Keystroke.Instruction.Parser
import Keystroke.Proofs.Instructions
import Keystroke.Proofs.Listings.Words

/-!
# Names of commands

The name of a visible command is found as it is listed, and no other visible command has it. What is
typed for a name may be respelled, but blanks, points and quotation marks stay as many as they were. So
the words of a name are told apart from those of its argument.
-/

namespace Keystroke

open Text

/-! ## What respelling leaves alone -/

namespace Text

variable {mark : Char} {pattern replacement : List Char}

theorem count_substitute (inPattern : mark ∉ pattern) (inReplacement : mark ∉ replacement)
    (notEmpty : pattern ≠ []) (text : List Char) :
    (substitute pattern replacement text).count mark = text.count mark := by
  have go (text : List Char) : ∀ skipped,
      (substitute.go pattern replacement skipped text).count mark = (text.drop skipped).count mark := by
    induction text with
    | nil => simp [substitute.go]
    | cons character rest ih =>
        rintro (_ | skipped)
        · rw [substitute.go]
          split
          · next begins =>
              obtain ⟨tail, parts⟩ := List.isPrefixOf_iff_prefix.mp begins
              have behind : rest.drop (pattern.length - 1) = tail := by
                obtain ⟨first, others, rfl⟩ := List.exists_cons_of_ne_nil notEmpty
                obtain ⟨-, rfl⟩ := List.cons.inj parts
                simp
              rw [List.count_append, ih, behind, List.drop_zero, ← parts, List.count_append,
                List.count_eq_zero_of_not_mem inPattern, List.count_eq_zero_of_not_mem inReplacement]
          · rw [List.count_cons, ih, List.drop_zero, List.drop_zero, List.count_cons]
        · rw [substitute.go, ih, List.drop_succ_cons]
  exact go text 0

/-- Upper-casing makes no character that comes before all letters. -/
theorem toUpper_eq_iff (before : mark.toNat < 65) (character : Char) :
    character.toUpper = mark ↔ character = mark := by
  unfold Char.toUpper
  split
  · next lower =>
      obtain ⟨low, high⟩ := lower
      have low : 97 ≤ character.toNat := low
      have high : character.toNat ≤ 122 := high
      -- The distance to the upper case is negative, so it is added modulo the size of a word.
      have shifted : (character.val + ('A'.val - 'a'.val)).toNat = character.toNat - 32 := by
        have distance : ('A'.val - 'a'.val).toNat = 2 ^ 32 - 32 := rfl
        rw [UInt32.toNat_add, distance]
        change (character.toNat + (2 ^ 32 - 32)) % 2 ^ 32 = _
        omega
      constructor
      · rintro rfl
        change (character.val + ('A'.val - 'a'.val)).toNat < 65 at before
        omega
      · rintro rfl
        omega
  · exact Iff.rfl

theorem count_upper (before : mark.toNat < 65) (text : List Char) :
    (upper text).count mark = text.count mark := by
  simp only [upper, List.count, List.countP_map]
  exact List.countP_congr fun character _ => by simpa using toUpper_eq_iff before character

end Text

namespace Opcode

/-- The characters that tell the words of a line apart. -/
def wordMarks : List Char := [' ', '.', '"']

/-- A mark comes before all letters, and no respelling has to do with it. -/
structure IsApart (mark : Char) : Prop where
  before : mark.toNat < 65
  spelledOut : ∀ entry ∈ spelledOut, mark ∉ entry.1.toList ∧ mark ∉ entry.2.toList
  respellings : ∀ entry ∈ respellings,
    mark ∉ entry.1.toList ∧ mark ∉ entry.2.toList ∧ entry.1.toList ≠ []

theorem isApart_of_mem {mark : Char} (isMark : mark ∈ wordMarks) : IsApart mark := by
  simp only [wordMarks, List.mem_cons, List.not_mem_nil, or_false] at isMark
  obtain rfl | rfl | rfl := isMark
  all_goals exact ⟨by decide, by decide +kernel, by decide +kernel⟩

theorem count_respelled {mark : Char} {entries : List (String × String)}
    (plain : ∀ entry ∈ entries, mark ∉ entry.1.toList ∧ mark ∉ entry.2.toList ∧ entry.1.toList ≠ [])
    (text : List Char) :
    (entries.foldl (fun text entry => substitute entry.1.toList entry.2.toList text) text).count mark =
      text.count mark := by
  induction entries generalizing text with
  | nil => rfl
  | cons entry entries ih =>
      obtain ⟨inPattern, inReplacement, notEmpty⟩ := plain entry List.mem_cons_self
      rw [List.foldl_cons, ih fun other member => plain other (List.mem_cons_of_mem _ member),
        count_substitute inPattern inReplacement notEmpty]

/-- A name has as many marks as what was typed for it. -/
theorem count_listedName {mark : Char} (isMark : mark ∈ wordMarks) (typed : List Char) :
    (listedName typed).count mark = typed.count mark := by
  obtain ⟨before, noneSpelled, noneRespelled⟩ := isApart_of_mem isMark
  rw [listedName]
  split
  · next entry found =>
      obtain ⟨inTyped, inListed⟩ := noneSpelled entry (List.mem_of_find?_eq_some found)
      have typedAs : entry.1.toList = upper typed := by simpa using List.find?_some found
      rw [List.count_eq_zero_of_not_mem inListed, ← count_upper before, ← typedAs,
        List.count_eq_zero_of_not_mem inTyped]
  · rw [count_respelled noneRespelled, count_upper before]

/-! ## The names of visible commands -/

/-- The word with which the names of the jumps to a line begin. -/
def jumpWord : List Char := ['G', 'T', 'O']

/-- A name that is found as it is listed and is no number. It is one word, with a point only if there is no
argument, or it is the word for jumps and one or two points. -/
def hasReadableName (opcode : Opcode) : Bool :=
  let name := opcode.name.toList
  listedName name = name && !name.contains '"' && (TypedLine.number? name).isNone &&
    (decide (IsSolid name) && !name.isEmpty && (opcode.argumentKind = .none || !name.contains '.') ||
      name = jumpWord ++ [' ', '.'] || name = jumpWord ++ [' ', '.', '.'])

/-- A number for a name, by which the names of visible commands differ. -/
def nameNumber (name : List Char) : Nat :=
  name.foldl (fun number character => number * 15 + character.toNat) 1 % 6929

/-- The visible commands. -/
def visible : List Opcode := all.toList.filter fun opcode => !opcode.isHidden

theorem mem_visible {opcode : Opcode} (shown : opcode.isHidden = false) : opcode ∈ visible := by
  have listed := Array.mem_of_getElem? (ofCode?_code opcode)
  simp [visible, listed, shown]

/-- Whether no number occurs twice; those that were met are kept as the bits of a number. -/
def allDiffer : List Nat → Nat → Bool
  | [], _ => true
  | key :: rest, met => !met.testBit key && allDiffer rest (met ||| 1 <<< key)

theorem nodup_of_allDiffer {keys : List Nat} {met : Nat} (differ : allDiffer keys met = true) :
    keys.Nodup ∧ ∀ key ∈ keys, met.testBit key = false := by
  induction keys generalizing met with
  | nil => simp
  | cons key rest ih =>
      rw [allDiffer, Bool.and_eq_true, Bool.not_eq_true'] at differ
      obtain ⟨nodup, notMet⟩ := ih differ.2
      simp only [Nat.testBit_or, Bool.or_eq_false_iff, Nat.one_shiftLeft, Nat.testBit_two_pow] at notMet
      refine ⟨List.nodup_cons.mpr ⟨fun member => ?_, nodup⟩, fun other member => ?_⟩
      · simpa using (notMet key member).2
      · obtain rfl | inRest := List.mem_cons.mp member
        · exact differ.1
        · exact (notMet other inRest).1

theorem allDiffer_visible :
    allDiffer (visible.map fun opcode => nameNumber opcode.name.toList) 0 = true := by
  decide +kernel

theorem hasReadableName_visible : (visible.all hasReadableName) = true := by
  decide +kernel

/-- No two visible commands have the same name. -/
theorem name_injective {first second : Opcode} (shownFirst : first.isHidden = false)
    (shownSecond : second.isHidden = false) (same : first.name.toList = second.name.toList) :
    first = second :=
  List.inj_on_of_nodup_map (nodup_of_allDiffer allDiffer_visible).1 (mem_visible shownFirst)
    (mem_visible shownSecond) (congrArg nameNumber same)

variable {opcode : Opcode}

/-- What is known of the name of a visible command. -/
structure IsReadable (opcode : Opcode) (name : List Char) : Prop where
  listed : listedName name = name
  unquoted : '"' ∉ name
  noNumber : TypedLine.number? name = none
  words : IsSolid name ∧ name ≠ [] ∧ (opcode.argumentKind = .none ∨ '.' ∉ name) ∨
    name = jumpWord ++ [' ', '.'] ∨ name = jumpWord ++ [' ', '.', '.']

theorem isReadable_name (shown : opcode.isHidden = false) : IsReadable opcode opcode.name.toList := by
  have readable := List.all_eq_true.mp hasReadableName_visible opcode (mem_visible shown)
  simp only [hasReadableName, Bool.and_eq_true, Bool.or_eq_true, decide_eq_true_eq, Bool.not_eq_true',
    List.contains_eq_mem, decide_eq_false_iff_not, List.isEmpty_eq_false_iff, Option.isNone_iff_eq_none]
    at readable
  obtain ⟨⟨⟨listed, unquoted⟩, noNumber⟩, words⟩ := readable
  exact ⟨listed, unquoted, noNumber, by simpa only [and_assoc, or_assoc] using words⟩

/-- A visible command is found by its name. -/
theorem ofTyped?_name (shown : opcode.isHidden = false) : ofTyped? opcode.name.toList = some opcode := by
  have named : String.ofList (listedName opcode.name.toList) = opcode.name := by
    rw [(isReadable_name shown).listed, String.ofList_toList]
  have found : (ofTyped? opcode.name.toList).isSome := by
    rw [ofTyped?, named, Array.find?_isSome]
    exact ⟨opcode, Array.mem_of_getElem? (ofCode?_code opcode), by simp [shown]⟩
  obtain ⟨other, isOther⟩ := Option.isSome_iff_exists.mp found
  have has := Array.find?_some isOther
  simp only [named, Bool.and_eq_true, Bool.not_eq_true', beq_iff_eq] at has
  rw [isOther, name_injective has.1 shown (congrArg String.toList has.2)]

/-- What is typed for a visible command has the marks of its name. -/
theorem exists_of_ofTyped? {typed : List Char} (found : ofTyped? typed = some opcode) :
    opcode.isHidden = false ∧ ∀ mark ∈ wordMarks, typed.count mark = opcode.name.toList.count mark := by
  have has := Array.find?_some found
  simp only [Bool.and_eq_true, Bool.not_eq_true', beq_iff_eq] at has
  refine ⟨has.1, fun mark isMark => ?_⟩
  rw [has.2, String.toList_ofList, count_listedName isMark]

/-- A line in which a quotation mark, or no point, follows a blank names no command. -/
theorem ofTyped?_eq_none {typed : List Char} (blank : ' ' ∈ typed) (marked : '"' ∈ typed ∨ '.' ∉ typed) :
    ofTyped? typed = none := by
  rw [Option.eq_none_iff_forall_ne_some]
  intro opcode found
  obtain ⟨shown, same⟩ := exists_of_ofTyped? found
  have readable := isReadable_name shown
  have hasBlank : 0 < opcode.name.toList.count ' ' := by
    rw [← same _ (by decide)]
    exact List.count_pos_iff.mpr blank
  obtain quoted | noPoint := marked
  · have noQuote := List.count_eq_zero_of_not_mem readable.unquoted
    rw [← same _ (by decide)] at noQuote
    exact (List.count_pos_iff.mpr quoted).ne' noQuote
  · have noPoint := List.count_eq_zero_of_not_mem noPoint
    rw [same _ (by decide)] at noPoint
    obtain ⟨solid, -⟩ | name | name := readable.words
    · exact absurd (solid ' ' (List.count_pos_iff.mp hasBlank)) (by decide)
    · rw [name] at noPoint
      exact absurd noPoint (by decide)
    · rw [name] at noPoint
      exact absurd noPoint (by decide)

/-- No command is named by three words. -/
theorem ofTyped?_three (first second third : List Char) :
    ofTyped? (first ++ ' ' :: second ++ ' ' :: third) = none := by
  rw [Option.eq_none_iff_forall_ne_some]
  intro opcode found
  obtain ⟨shown, same⟩ := exists_of_ofTyped? found
  have blanks := same ' ' (by decide)
  simp only [List.count_append, List.count_cons_self] at blanks
  obtain ⟨solid, -⟩ | name | name := (isReadable_name shown).words
  · have none : opcode.name.toList.count ' ' = 0 :=
      List.count_eq_zero_of_not_mem fun member => absurd (solid ' ' member) (by decide)
    omega
  · rw [name, show (jumpWord ++ [' ', '.']).count ' ' = 1 by decide] at blanks
    omega
  · rw [name, show (jumpWord ++ [' ', '.', '.']).count ' ' = 1 by decide] at blanks
    omega

end Opcode

end Keystroke
