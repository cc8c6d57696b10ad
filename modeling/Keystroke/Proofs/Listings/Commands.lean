import Mathlib
import Keystroke.Proofs.Listings.Arguments
import Keystroke.Proofs.Listings.Names

/-!
# Lines that name a command

The command of a line is found by the words of its name, as long as its argument does not go on with the
name. So a command is read as it is listed, with the argument that was read for it.
-/

namespace Keystroke

open Text

/-! ## The command -/

namespace TypedLine

variable {opcode : Opcode}

theorem command?_single (word : List Char) :
    command? [word] = (Opcode.ofTyped? word).map fun opcode => (opcode, 1) := by
  simp [command?, List.intercalate]

/-- A third word does not belong to a command. -/
theorem command?_more (first second : List Char) (rest : List (List Char)) :
    command? (first :: second :: rest) =
      ((Opcode.ofTyped? (first ++ ' ' :: second)).map fun opcode => (opcode, 2)).or
        ((Opcode.ofTyped? first).map fun opcode => (opcode, 1)) := by
  have three (third : List Char) : Opcode.ofTyped? (first ++ ' ' :: (second ++ ' ' :: third)) = none := by
    simpa using Opcode.ofTyped?_three first second third
  cases rest with
  | nil => cases found : Opcode.ofTyped? (first ++ ' ' :: second) <;> simp [command?, List.intercalate, found]
  | cons third rest =>
      cases found : Opcode.ofTyped? (first ++ ' ' :: second) <;>
        simp [command?, List.intercalate, three, found]

theorem isHidden_of_command? {words : List (List Char)} {count : Nat}
    (found : command? words = some (opcode, count)) : opcode.isHidden = false := by
  obtain ⟨tried, -, isFound⟩ := List.exists_of_findSome?_eq_some found
  split at isFound
  · obtain ⟨typed, isTyped, same⟩ := Option.map_eq_some_iff.mp isFound
    obtain rfl : typed = opcode := congrArg Prod.fst same
    exact (Opcode.exists_of_ofTyped? isTyped).1
  · cases isFound

/-- The words of a name are a command, if what follows does not go on with the name. -/
theorem exists_parts (shown : opcode.isHidden = false) :
    ∃ parts, opcode.name.toList = joined parts ∧ AreWords parts ∧
      ∀ rest, (∀ word ∈ rest.head?, opcode.argumentKind ≠ .none ∧ ('"' ∈ word ∨ '.' ∉ word)) →
        command? (parts ++ rest) = some (opcode, parts.length) := by
  have found := Opcode.ofTyped?_name shown
  obtain ⟨solid, notEmpty, noPoint⟩ | name := (Opcode.isReadable_name shown).words
  · refine ⟨[opcode.name.toList], (joined_singleton _).symm, .single solid notEmpty, fun rest apart => ?_⟩
    rcases rest with _ | ⟨word, rest⟩
    · simp [command?_single, found]
    · obtain ⟨takes, marked⟩ := apart word rfl
      have noPoint : '.' ∉ opcode.name.toList := noPoint.resolve_left takes
      have none : Opcode.ofTyped? (opcode.name.toList ++ ' ' :: word) = none :=
        Opcode.ofTyped?_eq_none (by simp)
          (marked.imp (fun quoted => by simp [quoted]) fun unmarked => by simp [noPoint, unmarked])
      simp [command?_more, none, found]
  · have words (point : List Char) (solid : IsSolid point) (notEmpty : point ≠ [])
        (name : opcode.name.toList = Opcode.jumpWord ++ ' ' :: point) :
        opcode.name.toList = joined [Opcode.jumpWord, point] ∧ AreWords [Opcode.jumpWord, point] ∧
          ∀ rest, command? ([Opcode.jumpWord, point] ++ rest) = some (opcode, 2) := by
      refine ⟨by rw [name, joined_cons_cons, joined_singleton],
        .more (by decide) (by decide) (.single solid notEmpty), fun rest => ?_⟩
      rw [name] at found
      simp [command?_more, found]
    obtain name | name := name
    · obtain ⟨isJoined, areWords, isCommand⟩ := words ['.'] (by decide) (by decide) name
      exact ⟨_, isJoined, areWords, fun rest _ => isCommand rest⟩
    · obtain ⟨isJoined, areWords, isCommand⟩ := words ['.', '.'] (by decide) (by decide) name
      exact ⟨_, isJoined, areWords, fun rest _ => isCommand rest⟩

variable {line : String} {text : List Char}

/-- A line that begins with a name is no text; if it is no number, the name is its command. -/
theorem parse_of_command? (shown : opcode.isHidden = false) (trimmed : IsTrimmed line.toList)
    {behind : List Char} (begins : line.toList = opcode.name.toList ++ behind)
    (noNumber : number? line.toList = none) {count : Nat}
    (isCommand : command? (words line.toList) = some (opcode, count)) :
    parse line = withArgument opcode (afterWords count line.toList) := by
  obtain ⟨parts, isName, areWords, -⟩ := exists_parts shown
  have notEmpty : opcode.name.toList ≠ [] := isName ▸ areWords.joined_ne_nil
  have noQuote : line.toList.head? ≠ some '"' := fun isHead => by
    rw [begins, List.head?_append_of_ne_nil _ notEmpty] at isHead
    exact (Opcode.isReadable_name shown).unquoted (List.mem_of_head? isHead)
  rw [parse, trim_eq_self trimmed, if_neg (by simp [begins, notEmpty]), if_neg noQuote]
  simp only [noNumber, isCommand]

theorem parse_name (shown : opcode.isHidden = false) (named : line.toList = opcode.name.toList) :
    parse line = withArgument opcode [] := by
  obtain ⟨parts, isName, areWords, isCommand⟩ := exists_parts shown
  have isWhole : line.toList = joined parts := named.trans isName
  have noNumber : number? line.toList = none := named ▸ (Opcode.isReadable_name shown).noNumber
  have found : command? (words line.toList) = some (opcode, parts.length) := by
    rw [isWhole, areWords.words_joined]
    simpa using isCommand []
  rw [parse_of_command? shown (isWhole ▸ areWords.isTrimmed) (by rw [named, List.append_nil]) noNumber found,
    isWhole, areWords.afterWords_joined]

theorem number?_eq_none_of_blank (isBlank : ' ' ∈ text) : number? text = none := by
  cases text with
  | nil => rfl
  | cons first rest =>
      rw [number?, if_neg]
      simp only [Bool.and_eq_true, List.all_eq_true, not_and]
      intro _ digits
      exact absurd (digits ' ' isBlank) (by decide)

theorem parse_name_append (shown : opcode.isHidden = false) (takes : opcode.argumentKind ≠ .none)
    (isArgument : IsArgumentText text) (parts : line.toList = opcode.name.toList ++ ' ' :: text) :
    parse line = withArgument opcode text := by
  obtain ⟨names, isName, areWords, isCommand⟩ := exists_parts shown
  have trimmed : IsTrimmed line.toList := by
    rw [parts, isName, List.append_cons]
    exact areWords.isTrimmed.append areWords.joined_ne_nil isArgument.trimmed isArgument.notEmpty [' ']
  have found : command? (words line.toList) = some (opcode, names.length) := by
    rw [parts, isName, areWords.words_append]
    exact isCommand _ fun word isFirst => ⟨takes, isArgument.apart word isFirst⟩
  rw [parse_of_command? shown trimmed parts (number?_eq_none_of_blank (by simp [parts])) found, parts, isName,
    areWords.afterWords_append, trim_eq_self isArgument.trimmed]

/-! ## The instruction -/

/-- The arguments that can be read for a command. -/
inductive IsReadFor (opcode : Opcode) : Argument → Prop
  | plain (takesNone : opcode.argumentKind = .none) : IsReadFor opcode .none
  | longText (takesText : opcode.argumentKind = .longText) (text : String) :
      IsReadFor opcode (.longText (toBytes text))
  | argument {argument : Argument} (takes : opcode.argumentKind ≠ .none)
      (takesOther : opcode.argumentKind ≠ .longText) (typed : IsTypedArgument argument)
      (suits : checkArgument opcode argument = .ok ()) : IsReadFor opcode argument

theorem isReadFor_of_withArgument {instruction : Instruction}
    (read : withArgument opcode text = .ok (.complete instruction)) :
    instruction.opcode = opcode ∧ IsReadFor opcode instruction.argument := by
  rw [withArgument] at read
  split at read
  · split at read
    · next takesNone =>
        cases read
        exact ⟨rfl, .plain takesNone⟩
    · cases read
  · split at read
    · cases read
    · next takesText =>
        obtain ⟨bytes, unquoted, same⟩ := StateFile.bind_eq_ok.mp read
        obtain ⟨name, rfl⟩ := exists_of_unquote unquoted
        cases same
        exact ⟨rfl, .longText takesText name⟩
    · next takes takesOther =>
        obtain ⟨argument, isRead, rest⟩ := StateFile.bind_eq_ok.mp read
        obtain ⟨_, suits, same⟩ := StateFile.bind_eq_ok.mp rest
        cases same
        exact ⟨rfl, .argument takes takesOther (isTypedArgument_of_argument isRead) suits⟩

/-- What can be read for a command is read from its text in a listing. -/
theorem withArgument_argumentText {argument : Argument} (read : IsReadFor opcode argument) :
    withArgument opcode (Instruction.argumentText (Instruction.numberWidth opcode) argument) =
      .ok (.complete ⟨opcode, argument⟩) := by
  cases read with
  | plain takesNone => simp [withArgument, Instruction.argumentText, takesNone, Instruction.plain]
  | longText takesText text =>
      rw [withArgument, takesText, Instruction.argumentText, if_neg (by simp [toList_quoted]), unquote_quoted]
      rfl
  | argument takes takesOther typed suits =>
      have notEmpty := (isArgumentText_argumentText typed (Instruction.numberWidth opcode)).notEmpty
      rw [withArgument, if_neg (by simpa using notEmpty)]
      split
      · contradiction
      · contradiction
      · rw [argument_argumentText typed, StateFile.ok_bind, suits]
        rfl

/-- The numbers and texts of a program are written without a command, so theirs are hidden. -/
theorem ne_of_shown (shown : opcode.isHidden = false) : opcode ≠ .number ∧ opcode ≠ .shortText := by
  constructor <;> rintro rfl <;> exact absurd shown (by decide)

theorem display_eq (shown : opcode.isHidden = false) : opcode.display = opcode.name := by
  obtain ⟨parts, isName, areWords, -⟩ := exists_parts shown
  have notEmpty : opcode.name.toList ≠ [] := isName ▸ areWords.joined_ne_nil
  rw [Opcode.display, if_neg (by simpa using notEmpty)]
  · exact (ne_of_shown shown).1
  · exact (ne_of_shown shown).2

theorem toList_listing (shown : opcode.isHidden = false) {argument : Argument}
    (read : IsReadFor opcode argument) (takes : opcode.argumentKind ≠ .none) :
    (Instruction.listing ⟨opcode, argument⟩).toList =
      opcode.name.toList ++ ' ' :: Instruction.argumentText (Instruction.numberWidth opcode) argument := by
  obtain ⟨notNumber, notText⟩ := ne_of_shown shown
  cases read with
  | plain takesNone => exact absurd takesNone takes
  | longText takesText text =>
    rw [Instruction.listing]
    simp [display_eq shown, Instruction.argumentText]
  | argument takes takesOther typed suits =>
    cases typed with
    | direct typed =>
      cases typed with
      | text short =>
        rw [Instruction.listing]
        simp [display_eq shown, Instruction.argumentText, notText]
      | number number | stack register =>
        rw [Instruction.listing]
        simp [display_eq shown, Instruction.argumentText]
    | indirect typed =>
      rw [Instruction.listing]
      simp [display_eq shown, Instruction.argumentText, TypedLine.indirectWord]
    | localLabel isLabel =>
      rw [Instruction.listing]
      simp [display_eq shown, Instruction.argumentText]

theorem parse_listing_command (shown : opcode.isHidden = false) {argument : Argument}
    (read : IsReadFor opcode argument) :
    parse (Instruction.listing ⟨opcode, argument⟩) = .ok (.complete ⟨opcode, argument⟩) := by
  have again := withArgument_argumentText read
  by_cases takesNone : opcode.argumentKind = .none
  · cases read with
    | longText takesText => rw [takesNone] at takesText; cases takesText
    | argument takes => exact absurd takesNone takes
    | plain =>
        have named : (Instruction.listing ⟨opcode, .none⟩).toList = opcode.name.toList := by
          simp [Instruction.listing, display_eq shown]
        exact (parse_name shown named).trans again
  · rw [parse_name_append shown takesNone ?_ (toList_listing shown read takesNone), again]
    cases read with
    | plain takesNow => exact absurd takesNow takesNone
    | longText _ text => exact isArgumentText_quoted text
    | argument _ _ typed => exact isArgumentText_argumentText typed _

end TypedLine

end Keystroke
