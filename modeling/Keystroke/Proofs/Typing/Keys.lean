import Mathlib
import Keystroke.Proofs.Entries.Values
import Keystroke.Proofs.Typing.Idle

/-!
# Keys and typed lines

A number that is keyed in and a command key lead to the same machine as the text of the number and the name of
the command, typed as two lines.
-/

namespace Keystroke

open Keystroke.Action

namespace EntryKey

/-- The number of the key. -/
def code : EntryKey → UInt8
  | .digit value => [34, 29, 30, 31, 24, 25, 26, 19, 20, 21].get value
  | .point => Key.dot
  | .exponent => Key.exponent
  | .changeSign => Key.changeSign
  | .backspace => Key.backspace

def key (entryKey : EntryKey) : Key := ⟨false, entryKey.code⟩

theorem digit?_code : ∀ value : Fin 10,
    Key.digit? (code (.digit value)) = some (Numeral.digitCharacter value) := by
  decide

end EntryKey

namespace Key

/-- The keys of commands have no other use. -/
theorem plainOpcode?_facts {code : UInt8} {opcode : Opcode} (command : plainOpcode? code = some opcode) :
    digit? code = none ∧ code ≠ dot ∧ code ≠ exponent ∧ code ≠ backspace ∧ code ≠ exit ∧ code ≠ runStop := by
  have small : ∀ number : Fin 256, (plainOpcode? (UInt8.ofNat number)).isSome = true →
      digit? (UInt8.ofNat number) = none ∧ UInt8.ofNat number ≠ dot ∧ UInt8.ofNat number ≠ exponent ∧
        UInt8.ofNat number ≠ backspace ∧ UInt8.ofNat number ≠ exit ∧ UInt8.ofNat number ≠ runStop := by
    decide +kernel
  have facts := small ⟨code.toNat, code.toNat_lt⟩
  rw [UInt8.ofNat_toNat] at facts
  exact facts (by rw [command]; rfl)

end Key

namespace Machine

variable {machine : Machine}

/-- Press keys, one after the other. -/
def pressAll (keys : List Key) (machine : Machine) : Machine :=
  keys.foldl (fun machine key => machine.press key) machine

/-! ## Keying in a number -/

theorem press_entryKey (idle : machine.IsIdle) (present : Option Entry) (key : EntryKey)
    (kept : ((present.getD .empty).press key).text ≠ [] ∧ ((present.getD .empty).press key).text ≠ ['-']) :
    ({ machine with entry := present } : Machine).press key.key =
      { machine with entry := some ((present.getD .empty).press key) } := by
  have plain : ({ machine with entry := present } : Machine).press key.key =
      ({ machine with entry := present } : Machine).pressPlain key.key := by
    simp [press, idle.stopped, idle.noTask, idle.noPending, EntryKey.key]
  rw [plain, pressPlain]
  cases key with
  | digit value =>
    simp only [EntryKey.key, EntryKey.digit?_code]
    rfl
  | point => rfl
  | exponent => rfl
  | changeSign =>
    cases present with
    | none => exact absurd rfl kept.2
    | some entry => rfl
  | backspace =>
    cases present with
    | none => exact absurd rfl kept.1
    | some entry =>
      have shorter : entry.backspace = (true, entry.press .backspace) := by
        simp [Entry.backspace, Entry.press] at kept ⊢
        exact kept
      show ({ machine with entry := some entry } : Machine).pressBackspace = _
      simp only [pressBackspace, shorter]
      rfl

/-- Something of the number is always left while these keys are pressed. -/
def KeepsEntry (keys : List EntryKey) : Prop :=
  ∀ front ∈ keys.inits, front ≠ [] →
    (Entry.keyed front).text ≠ [] ∧ (Entry.keyed front).text ≠ ['-']

instance (keys : List EntryKey) : Decidable (KeepsEntry keys) :=
  inferInstanceAs (Decidable (∀ front ∈ keys.inits, front ≠ [] → _ ∧ _))

theorem keyed_concat (keys : List EntryKey) (key : EntryKey) :
    Entry.keyed (keys ++ [key]) = (Entry.keyed keys).press key := by
  simp [Entry.keyed]

/-- Keys that build a number change nothing else. -/
theorem pressAll_entryKeys (idle : machine.IsIdle) {keys : List EntryKey} (keeps : KeepsEntry keys) :
    machine.pressAll (keys.map EntryKey.key) =
      { machine with entry := if keys = [] then none else some (Entry.keyed keys) } := by
  induction keys using List.reverseRecOn with
  | nil =>
    rw [if_pos rfl, ← idle.noEntry]
    rfl
  | append_singleton keys key earlier =>
    have before := earlier fun front isFront => keeps front
      ((List.mem_inits _ _).mpr (((List.mem_inits _ _).mp isFront).trans (List.prefix_append _ _)))
    have kept := keeps (keys ++ [key]) ((List.mem_inits _ _).mpr List.prefix_rfl) (by simp)
    have built : Entry.keyed keys = (if keys = [] then none else some (Entry.keyed keys)).getD .empty := by
      split
      · next none => rw [none]; rfl
      · rfl
    rw [keyed_concat, built] at kept
    have pressed := press_entryKey idle _ key kept
    rw [← built, ← keyed_concat, ← before] at pressed
    rw [if_neg (by simp), ← pressed]
    simp [pressAll]

/-! ## Command keys -/

theorem press_command (stopped : machine.isRunning = false) (noTask : machine.task = none)
    (noPending : machine.pending = none) {key : Key} {opcode : Opcode} (command : key.opcode? = some opcode)
    (apart : machine.entry = none ∨ key ≠ EntryKey.changeSign.key) :
    machine.press key = performing (pressOpcode opcode) machine := by
  obtain ⟨isShifted, code⟩ := key
  have pressed : machine.pressCommand ⟨isShifted, code⟩ = performing (pressOpcode opcode) machine := by
    rw [pressCommand, command]
  rw [press, if_neg (by simp [stopped, noTask]), noPending]
  cases isShifted with
  | true =>
    have other : code ≠ Key.runStop := by
      rintro rfl
      cases command
    simp only [Bool.not_true, Bool.false_eq_true, if_false, other]
    exact pressed
  | false =>
    obtain ⟨noDigit, noDot, noExponent, noBackspace, noExit, noRun⟩ := Key.plainOpcode?_facts command
    have noSign : (decide (code = Key.changeSign) && machine.entry.isSome) = false := by
      rcases apart with none | other
      · simp [none]
      · have : code ≠ Key.changeSign := fun same => other (by rw [same]; rfl)
        simp [this]
    simp only [pressPlain, noDigit, noDot, noExponent, noBackspace, noExit, noRun, noSign, Bool.not_false,
      Bool.false_eq_true, if_true, if_false]
    exact pressed

/-- A command key finishes the number that is being keyed in. -/
theorem press_command_of_entry (idle : machine.IsIdle) {entry : Entry} {value : Binary64}
    (denotes : entry.value = .ok value) {key : Key} {opcode : Opcode}
    (command : key.opcode? = some opcode) (apart : key ≠ EntryKey.changeSign.key) :
    ({ machine with entry := some entry } : Machine).press key =
      (machine.enterInstruction (literal value entry.text)).press key := by
  have idleAfter := idle.enterInstruction_literal value entry.text
  have finished : finishEntry.on { machine with entry := some entry } =
      (.ok (), machine.enterInstruction (literal value entry.text)) := by
    have same : ({ machine with entry := none } : Machine) = machine := by rw [← idle.noEntry]
    rw [finishEntry, on_bind_ok (on_get _)]
    dsimp only
    rw [same, on_bind_ok (on_set ..), denotes]
    rfl
  rw [@press_command { machine with entry := some entry } idle.stopped idle.noTask idle.noPending _ _ command
      (.inr apart),
    press_command idleAfter.stopped idleAfter.noTask idleAfter.noPending command (.inl idleAfter.noEntry),
    performing, performing, pressOpcode, on_bind_ok finished, on_bind_ok (finishEntry_none idleAfter.noEntry)]

/-- What a command key leaves. -/
theorem press_command_eq (idle : machine.IsIdle) {key : Key} {opcode : Opcode}
    (command : key.opcode? = some opcode) : machine.press key =
      if opcode.argumentKind = .none then machine.enterInstruction (.plain opcode)
      else { machine with pending := some opcode, pendingDigits := [] } := by
  rw [press_command idle.stopped idle.noTask idle.noPending command (.inl idle.noEntry), performing,
    pressOpcode, on_bind_ok (finishEntry_none idle.noEntry)]
  by_cases plain : opcode.argumentKind = .none
  · simp only [plain, if_true]
    rfl
  · simp only [plain, if_false]
    rfl

/-- The names of the commands on keys are no words of another meaning. -/
theorem name_of_key {key : Key} {opcode : Opcode} (command : key.opcode? = some opcode) :
    opcode.isHidden = false ∧ ∀ word ∈ modeWords, isWord opcode.name.toList word = false := by
  have named : ∀ number : Fin 256, ∀ isShifted, ∀ opcode ∈ Key.opcode? ⟨isShifted, UInt8.ofNat number⟩,
      opcode.isHidden = false ∧ ∀ word ∈ modeWords, isWord opcode.name.toList word = false := by
    decide +kernel
  have known := named ⟨key.code.toNat, key.code.toNat_lt⟩ key.isShifted opcode
  rw [UInt8.ofNat_toNat] at known
  exact known command

/-- What the name of a command leaves that is on a key. -/
theorem enter_name (idle : machine.IsIdle) {key : Key} {opcode : Opcode}
    (command : key.opcode? = some opcode) : machine.enter opcode.name =
      (true, if opcode.argumentKind = .none then machine.enterInstruction (.plain opcode)
        else { machine with pending := some opcode }) := by
  obtain ⟨shown, noWord⟩ := name_of_key command
  obtain ⟨parts, isName, areWords, -⟩ := TypedLine.exists_parts shown
  rw [enter_parsed idle (isName ▸ areWords.isTrimmed) noWord, TypedLine.parse_name shown rfl,
    TypedLine.withArgument]
  simp only [List.isEmpty_nil, if_true]
  split <;> rfl

/-- The text of two digits is an argument, and no word of another meaning. -/
theorem twoDigits_facts : ∀ first second : Fin 10,
    Text.trim (Numeral.digitText [first, second]) = Numeral.digitText [first, second] ∧
      digitsComplete [Numeral.digitCharacter first] = false ∧
      digitsComplete (Numeral.digitText [first, second]) = true ∧
      ∀ word ∈ modeWords, isWord (Numeral.digitText [first, second]) word = false := by
  decide +kernel

/-- The first of two digits is kept, and the second completes the command. -/
theorem press_digits (stopped : machine.isRunning = false) (noTask : machine.task = none) (opcode : Opcode)
    (first second : Fin 10) :
    ({ machine with pending := some opcode, pendingDigits := [] } : Machine).pressAll
        [(EntryKey.digit first).key, (EntryKey.digit second).key] =
      finishPending opcode (Numeral.digitText [first, second]) machine := by
  obtain ⟨-, one, two, -⟩ := twoDigits_facts first second
  have press_digit (value : Fin 10) (digits : List Char) :
      ({ machine with pending := some opcode, pendingDigits := digits } : Machine).press
          (EntryKey.digit value).key =
        if digitsComplete (digits ++ [Numeral.digitCharacter value]) then
          finishPending opcode (digits ++ [Numeral.digitCharacter value]) machine
        else { machine with
          pending := some opcode, pendingDigits := digits ++ [Numeral.digitCharacter value] } := by
    have noControl : ∀ value : Fin 10, (EntryKey.digit value).code ≠ Key.exit ∧
        (EntryKey.digit value).code ≠ Key.backspace ∧ (EntryKey.digit value).code ≠ Key.enter := by decide
    obtain ⟨noExit, noBackspace, noEnter⟩ := noControl value
    rw [press, if_neg (by simp [stopped, noTask])]
    simp only [pressForPending, EntryKey.key, noExit, noBackspace, noEnter, EntryKey.digit?_code,
      Bool.false_eq_true, if_false]
    rfl
  show (({ machine with pending := some opcode, pendingDigits := [] } : Machine).press
    (EntryKey.digit first).key).press (EntryKey.digit second).key = _
  rw [press_digit, if_neg (by simp [one]), press_digit]
  exact if_pos two

/-- Two digits complete a command that waits for its argument. -/
theorem enter_digits (noPrompt : machine.prompt = none) (noEntry : machine.entry = none) (opcode : Opcode)
    (first second : Fin 10) :
    (({ machine with pending := some opcode } : Machine).enter
        (String.ofList (Numeral.digitText [first, second]))).2 =
      finishPending opcode (Numeral.digitText [first, second]) machine := by
  obtain ⟨trimmed, -, -, noWord⟩ := twoDigits_facts first second
  rw [@enter_command { machine with pending := some opcode } noPrompt noEntry]
  · rfl
  · rw [String.toList_ofList]
    exact trimmed ▸ Text.isTrimmed_trim _
  · rwa [String.toList_ofList]

/-! ## Numbers and commands -/

/-- The value of an entry is that of the number it shows. -/
theorem value_of_number? {keys : List EntryKey} {value : Binary64}
    (denotes : TypedLine.number? (Entry.keyed keys).text = some value) :
    (Entry.keyed keys).value = .ok value := by
  obtain ⟨same, admitted⟩ := Entry.foldl_press_text Entry.isAdmitted_empty keys
  have shown : Entry.keyed keys = ⟨(keys.foldl Numeral.press {}).text⟩ := same
  rw [shown] at denotes ⊢
  have reads : (Decimal.read? (keys.foldl Numeral.press {}).text).filter Binary64.isFinite = some value := by
    rw [← denotes]
    cases text : (keys.foldl Numeral.press {}).text with
    | nil => rw [text] at denotes; cases denotes
    | cons first rest =>
      rw [text, TypedLine.number?] at denotes
      rw [TypedLine.number?]
      split at denotes
      · next numeral => rw [if_pos numeral]
      · cases denotes
  obtain ⟨reads, finite⟩ := Option.filter_eq_some_iff.mp reads
  exact Numeral.value_of_read? admitted reads finite

/-- A command key in front of which a number is keyed in does what it does after the number is typed. -/
theorem pressAll_number (idle : machine.IsIdle) {keys : List EntryKey} {value : Binary64}
    (keeps : KeepsEntry keys) (denotes : TypedLine.number? (Entry.keyed keys).text = some value)
    {key : Key} {opcode : Opcode} (command : key.opcode? = some opcode)
    (apart : key ≠ EntryKey.changeSign.key) :
    (machine.pressAll (keys.map EntryKey.key)).press key =
        (machine.enter (String.ofList (Entry.keyed keys).text)).2.press key ∧
      (machine.enter (String.ofList (Entry.keyed keys).text)).2.IsIdle := by
  have some : keys ≠ [] := by
    rintro rfl
    cases denotes
  rw [pressAll_entryKeys idle keeps, if_neg some, enter_number idle denotes]
  exact ⟨press_command_of_entry idle (value_of_number? denotes) command apart,
    idle.enterInstruction_literal value _⟩

/-- An idle machine does for keys what it does for lines: for a number and the key of a command, and for the
key of a command and its argument of two digits. -/
theorem keys_agree_with_lines (idle : machine.IsIdle) {key : Key} {opcode : Opcode}
    (command : key.opcode? = some opcode) :
    (opcode.argumentKind = .none → key ≠ EntryKey.changeSign.key → ∀ keys, KeepsEntry keys →
      (TypedLine.number? (Entry.keyed keys).text).isSome = true →
        machine.pressAll (keys.map EntryKey.key ++ [key]) =
          ((machine.enter (String.ofList (Entry.keyed keys).text)).2.enter opcode.name).2) ∧
    (opcode.argumentKind ≠ .none → ∀ first second : Fin 10,
      machine.pressAll [key, (EntryKey.digit first).key, (EntryKey.digit second).key] =
        ((machine.enter opcode.name).2.enter (String.ofList (Numeral.digitText [first, second]))).2) := by
  constructor
  · intro plain apart keys keeps isNumber
    obtain ⟨value, denotes⟩ := Option.isSome_iff_exists.mp isNumber
    obtain ⟨pressed, idleAfter⟩ := pressAll_number idle keeps denotes command apart
    rw [press_command_eq idleAfter command, if_pos plain] at pressed
    rw [enter_name idleAfter command, if_pos plain, ← pressed]
    simp [pressAll]
  · intro takesArgument first second
    rw [enter_name idle command, if_neg takesArgument, enter_digits idle.noPrompt idle.noEntry,
      ← press_digits idle.stopped idle.noTask]
    show (machine.press key).pressAll _ = _
    rw [press_command_eq idle command, if_neg takesArgument]

/-- The keys 5 and +, and the keys of the command to store with the register 07. -/
theorem keys_agree_with_lines_initial :
    (initial default).IsIdle ∧
      (initial default).pressAll [(EntryKey.digit 5).key, ⟨false, 37⟩] =
        (((initial default).enter "5").2.enter "+").2 ∧
      (initial default).pressAll [⟨false, 7⟩, (EntryKey.digit 0).key, (EntryKey.digit 7).key] =
        (((initial default).enter "STO").2.enter "07").2 := by
  have idle : (initial default).IsIdle := ⟨rfl, rfl, rfl, rfl, rfl⟩
  exact ⟨idle,
    (@keys_agree_with_lines _ idle ⟨false, 37⟩ _ rfl).1 rfl (by decide) [.digit 5] (by decide +kernel)
      (by decide +kernel),
    (@keys_agree_with_lines _ idle ⟨false, 7⟩ _ rfl).2 (by decide) 0 7⟩

end Machine

end Keystroke
