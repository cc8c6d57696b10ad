import Mathlib
import Keystroke.Proofs.StateFile.Locality

/-!
# Matrix texts that are too long

Layouts without long texts hold matrix texts of six bytes at most. A file with longer ones is refused at
first and read once more, and then what such a text has behind its sixth byte does not matter: the file
loads as any other one does that differs from it there only.
-/

namespace Keystroke.StateFile

open Reader

/-- A text behind its length, as a cell of a matrix holds it in layouts without long texts. -/
def matrixText (text : Bytes) : Bytes := text.length.toUInt8 :: text

section

variable {α β : Type} {overlong : Prop}

/-- Behind these bytes a reader needs the length of a matrix text. It complains about any length above
six at once, and another reader, which does not, cuts the text. -/
structure MeetsText (strict cutting : Reader α) (input : Input) (front : Bytes) : Prop where
  needsMore : strict.run { input with bytes := front } = .error .malformed
  complains (length : UInt8) (behind : Bytes) : shortTextLength < length.toNat →
    strict.run { input with bytes := front ++ length :: behind } = .error .longMatrixText
  cuts (text extra behind : Bytes) : text.length = shortTextLength →
    (text ++ extra).length ≤ maximalShortLength →
    cutting.run { input with bytes := front ++ (matrixText (text ++ extra) ++ behind) } =
      cutting.run { input with bytes := front ++ (matrixText text ++ behind) }

/-- A reader that complains about long matrix texts, and one that cuts them and is the same otherwise. -/
structure Cuts (strict cutting : Reader α) : Prop where
  complains_or_eq (input : Input) :
    strict.run input = .error .longMatrixText ∨ strict.run input = cutting.run input
  meets {input : Input} : strict.run input = .error .longMatrixText →
    ∃ front length behind, input.bytes = front ++ length :: behind ∧
      shortTextLength < length.toNat ∧ MeetsText strict cutting input front

/-! ## Sequences and branches -/

/-- What the first of two readers meets, both of them meet. -/
theorem MeetsText.bind {strict cutting : Reader α} {input : Input} {front : Bytes}
    (meets : MeetsText strict cutting input front) (next nextCutting : α → Reader β) :
    MeetsText (strict >>= next) (cutting >>= nextCutting) input front where
  needsMore := by
    rw [StateT.run_bind, meets.needsMore]
    rfl
  complains length behind isLong := by
    rw [StateT.run_bind, meets.complains length behind isLong]
    rfl
  cuts text extra behind isFull fits := by
    rw [StateT.run_bind, meets.cuts text extra behind isFull fits, StateT.run_bind]

/-- What the second of two readers meets, both of them meet behind what the first one takes. -/
theorem MeetsText.behind {strict cutting : Reader α} {next nextCutting : α → Reader β}
    {input between : Input} {value : α} {taken front : Bytes}
    (takes : Takes strict taken input between value)
    (takesCutting : Takes cutting taken input between value)
    (meets : MeetsText (next value) (nextCutting value) between front) :
    MeetsText (strict >>= next) (cutting >>= nextCutting) input (taken ++ front) where
  needsMore := by
    rw [StateT.run_bind, takes]
    exact meets.needsMore
  complains length behind isLong := by
    rw [StateT.run_bind, List.append_assoc, takes]
    exact meets.complains length behind isLong
  cuts text extra behind isFull fits := by
    rw [StateT.run_bind, StateT.run_bind, List.append_assoc, List.append_assoc, takesCutting,
      takesCutting]
    exact meets.cuts text extra behind isFull fits

theorem Cuts.run_eq {strict cutting : Reader α} (cuts : Cuts strict cutting) {input : Input}
    {result : α} {after : Input} (run : strict.run input = .ok (result, after)) :
    cutting.run input = .ok (result, after) := by
  rcases cuts.complains_or_eq input with complains | same
  · rw [run] at complains
    cases complains
  · rw [← same, run]

theorem Cuts.bind {strict cutting : Reader α} {next nextCutting : α → Reader β}
    (front : Cuts strict cutting) (isLocal : IsLocal overlong strict)
    (behind : ∀ value, Cuts (next value) (nextCutting value)) :
    Cuts (strict >>= next) (cutting >>= nextCutting) where
  complains_or_eq input := by
    rw [StateT.run_bind, StateT.run_bind]
    rcases run : strict.run input with damage | ⟨value, between⟩
    · rcases front.complains_or_eq input with complains | same
      · left
        rw [← run, complains]
        rfl
      · right
        rw [← same, run]
        rfl
    · rw [front.run_eq run]
      exact (behind value).complains_or_eq between
  meets {input} run := by
    rw [StateT.run_bind] at run
    rcases ran : strict.run input with damage | ⟨value, between⟩
    · rw [ran] at run
      cases run
      obtain ⟨before, length, rest, split, isLong, meets⟩ := front.meets ran
      exact ⟨before, length, rest, split, isLong, meets.bind next nextCutting⟩
    · rw [ran] at run
      obtain ⟨taken, isTaken, takes⟩ := isLocal.exists_front ran
      obtain ⟨before, length, rest, split, isLong, meets⟩ := (behind value).meets run
      refine ⟨taken ++ before, length, rest, ?_, isLong, ?_⟩
      · rw [isTaken, split, List.append_assoc]
      · exact meets.behind takes fun rest => front.run_eq (takes rest)

/-- Where nothing complains, nothing is cut. -/
theorem cuts_self {reader : Reader α} (never : IsLocal False reader) : Cuts reader reader where
  complains_or_eq _ := .inr rfl
  meets run := (never.refused run).elim

/-- Behind a reader that never complains. -/
theorem Cuts.after {reader : Reader α} {next nextCutting : α → Reader β}
    (behind : ∀ value, Cuts (next value) (nextCutting value)) (never : IsLocal False reader) :
    Cuts (reader >>= next) (reader >>= nextCutting) :=
  (cuts_self never).bind never behind

theorem Cuts.map {strict cutting : Reader α} (front : Cuts strict cutting)
    (isLocal : IsLocal overlong strict) (f : α → β) :
    Cuts (do return f (← strict)) (do return f (← cutting)) :=
  front.bind isLocal fun value => cuts_self (isLocal_pure (f value))

theorem cuts_many {strict cutting : Reader α} (item : Cuts strict cutting)
    (isLocal : IsLocal overlong strict) (count : Nat) :
    Cuts (many strict count) (many cutting count) := by
  suffices loop : ∀ reversed, Cuts (many.go strict count reversed) (many.go cutting count reversed) by
    exact loop []
  induction count with
  | zero =>
      intro reversed
      exact cuts_self (isLocal_pure reversed.reverse)
  | succ count ih =>
      intro reversed
      apply item.bind isLocal
      intro value
      exact ih (value :: reversed)

/-! ## Cells -/

/-- The text of a cell in an older layout. -/
theorem run_oldCell_text (cutsTexts : Bool) (input : Input) (length : UInt8) (behind : Bytes) :
    (oldCell cutsTexts).run { input with bytes := 1 :: length :: behind } =
      if shortTextLength < length.toNat ∧ !cutsTexts then .error .longMatrixText
      else (do return Cell.text ((← bytes length.toNat).take shortTextLength) : Reader Cell).run
        { input with bytes := behind } := by
  change (if shortTextLength < length.toNat ∧ !cutsTexts then _ else _ : Reader Cell).run _ = _
  split <;> rfl

theorem takes_oldCell_text (input : Input) {text : Bytes} (fits : text.length ≤ maximalShortLength) :
    Takes (oldCell true) (1 :: matrixText text) input input (.text (text.take shortTextLength)) := by
  intro rest
  change (oldCell true).run { input with bytes := 1 :: text.length.toUInt8 :: (text ++ rest) } = _
  rw [run_oldCell_text, if_neg (by simp), toNat_shortLength fits]
  exact (reads_bytes text).map (fun text => Cell.text (text.take shortTextLength)) input rest

theorem meetsText_oldCell (input : Input) : MeetsText (oldCell false) (oldCell true) input [1] where
  needsMore := rfl
  complains length behind isLong := by
    change (oldCell false).run { input with bytes := 1 :: length :: behind } = _
    rw [run_oldCell_text, if_pos ⟨isLong, rfl⟩]
  cuts text extra behind isFull fits := by
    have short : text.length ≤ maximalShortLength := isFull.trans_le (by decide)
    have sameStart : (text ++ extra).take shortTextLength = text.take shortTextLength := by
      rw [← isFull, List.take_left, List.take_length]
    have takesLong := takes_oldCell_text input fits behind
    rw [sameStart] at takesLong
    exact takesLong.trans (takes_oldCell_text input short behind).symm

theorem eq_of_run_flag {input after : Input} (run : flag.run input = .ok (true, after)) :
    input = { after with bytes := 1 :: after.bytes } := by
  rcases input with ⟨_ | ⟨code, rest⟩, shared, nextStorage⟩
  · cases run
  · have read : byte.run ⟨code :: rest, shared, nextStorage⟩ =
        .ok (code, ⟨rest, shared, nextStorage⟩) := rfl
    rw [flag, StateT.run_bind, read] at run
    dsimp only [bind, Except.bind] at run
    rcases number : code.toNat with _ | _ | further
    · rw [number] at run
      cases run
    · rw [number] at run
      cases run
      have same : code = 1 := UInt8.toNat_inj.mp number
      rw [same]
    · rw [number] at run
      cases run

/-- The two readers of old cells differ where there is a text that is too long. -/
theorem oldCell_cases (input : Input) :
    (∃ length behind, input.bytes = 1 :: length :: behind ∧ shortTextLength < length.toNat) ∨
      (oldCell false).run input = (oldCell true).run input := by
  rcases run : flag.run input with damage | ⟨isText, after⟩
  · right
    rw [oldCell, oldCell, StateT.run_bind, StateT.run_bind, run]
    rfl
  cases isText with
  | false =>
      right
      rw [oldCell, oldCell, StateT.run_bind, StateT.run_bind, run]
      rfl
  | true =>
      obtain rfl := eq_of_run_flag run
      rcases after with ⟨_ | ⟨length, behind⟩, shared, nextStorage⟩
      · right
        rfl
      · by_cases isLong : shortTextLength < length.toNat
        · exact .inl ⟨length, behind, rfl, isLong⟩
        · right
          have sameRun := run_oldCell_text true ⟨[], shared, nextStorage⟩ length behind
          rw [if_neg (by simp)] at sameRun
          refine (run_oldCell_text false ⟨[], shared, nextStorage⟩ length behind).trans ?_
          rw [if_neg fun long => isLong long.1]
          exact sameRun.symm

theorem cuts_oldCell : Cuts (oldCell false) (oldCell true) where
  complains_or_eq input := by
    rcases oldCell_cases input with ⟨length, behind, isText, isLong⟩ | same
    · left
      have complains := (meetsText_oldCell input).complains length behind isLong
      rwa [List.singleton_append, ← isText] at complains
    · exact .inr same
  meets {input} run := by
    rcases oldCell_cases input with ⟨length, behind, isText, isLong⟩ | same
    · exact ⟨[1], length, behind, isText, isLong, meetsText_oldCell input⟩
    · rw [same] at run
      exact absurd ((isLocal_oldCell true).refused run) (by simp)

/-! ## From values to files -/

variable {version : Nat}

theorem holdsLevels_of_old (old : holdsLongTexts version = false) : holdsLevels version = false := by
  simp only [holdsLongTexts, holdsLevels, decide_eq_false_iff_not] at *
  omega

theorem cuts_cell (old : holdsLongTexts version = false) :
    Cuts (cell ⟨version, false⟩) (cell ⟨version, true⟩) := by
  rw [cell, cell, if_neg (by simp [old]), if_neg (by simp [old])]
  exact cuts_oldCell

theorem cuts_grid {strict cutting : Reader α} (element : Cuts strict cutting)
    (isLocal : IsLocal overlong strict) (rows : Nat) :
    Cuts (grid strict rows) (grid cutting rows) := by
  refine Cuts.after (fun cols => ?_) isLocal_integer
  refine Cuts.after (fun _ => ?_) (isLocal_require _)
  refine (cuts_many element isLocal _).bind (isLocal_many isLocal _) fun cells => ?_
  exact cuts_self (isLocal_sound _)

theorem cuts_array (version typeCode : Nat) {contents contentsCutting : Nat → Reader Value}
    (full : ∀ count, Cuts (contents count) (contentsCutting count))
    (isLocal : ∀ count, IsLocal overlong (contents count)) :
    Cuts (array version typeCode refuse contents) (array version typeCode refuse contentsCutting) := by
  refine Cuts.after (fun head => ?_) (isLocal_arrayHead version)
  match head with
  | .earlier index => exact cuts_self (isLocal_earlierArray index typeCode)
  | .emptyList => exact cuts_self isLocal_refuse
  | .contents count isShared =>
      refine Cuts.after (fun index => ?_) (isLocal_reserve isShared)
      refine (full count).bind (isLocal count) fun value => ?_
      exact cuts_self (isLocal_finish isShared index value)

theorem cuts_valueWithin (old : holdsLongTexts version = false) (depth : Nat) :
    Cuts (valueWithin ⟨version, false⟩ depth) (valueWithin ⟨version, true⟩ depth) := by
  have noLists := holdsLevels_of_old old
  -- Readers that both contexts share.
  have null := cuts_self (isLocal_pure Value.null)
  have number := cuts_self (isLocal_real.map Value.real)
  have complexNumber := cuts_self (isLocal_complex.map Value.complex)
  have complexMatrix := cuts_self (isLocal_array version 4 isLocal_refuse fun rows =>
    (isLocal_grid isLocal_complex rows).map Value.newComplexMatrix)
  have text := cuts_self (isLocal_text version)
  have refused : Cuts (refuse : Reader Value) refuse := cuts_self isLocal_refuse
  have cells := isLocal_cell ⟨version, false⟩
  cases depth with
  | zero => exact refused
  | succ depth =>
      refine Cuts.after (fun code => ?_) isLocal_byte
      generalize code.toNat = typeCode
      match typeCode with
      | 0 => exact null
      | 1 => exact number
      | 2 => exact complexNumber
      | 3 =>
          refine cuts_array version 3 (fun rows => ?_) fun rows =>
            (isLocal_grid cells rows).map Value.newRealMatrix
          exact (cuts_grid (cuts_cell old) cells rows).map (isLocal_grid cells rows)
            Value.newRealMatrix
      | 4 => exact complexMatrix
      | 5 => exact text
      | 6 =>
          change Cuts (if holdsLevels version = true then _ else refuse)
            (if holdsLevels version = true then _ else refuse)
          rw [noLists]
          exact refused
      | _ + 7 => exact refused

/-- Without lists values are not nested. -/
theorem value_eq_valueWithin (old : holdsLongTexts version = false) (cutsTexts : Bool) :
    value ⟨version, cutsTexts⟩ = valueWithin ⟨version, cutsTexts⟩ 1 := by
  have noLists := holdsLevels_of_old old
  funext input
  change valueWithin _ (input.bytes.length + 1) input = _
  simp only [valueWithin, noLists]
  rfl

theorem cuts_value (old : holdsLongTexts version = false) :
    Cuts (value ⟨version, false⟩) (value ⟨version, true⟩) := by
  rw [value_eq_valueWithin old, value_eq_valueWithin old]
  exact cuts_valueWithin old 1

theorem cuts_stack (old : holdsLongTexts version = false) :
    Cuts (stack ⟨version, false⟩) (stack ⟨version, true⟩) := by
  have values := isLocal_value ⟨version, false⟩
  have levels (isBig : Bool) : Cuts (do
        let depth ← word 4
        require (isBig || depth == Stack.fourLevels)
        return Stack.ofValues isBig (← many (value ⟨version, false⟩) depth).reverse)
      (do
        let depth ← word 4
        require (isBig || depth == Stack.fourLevels)
        return Stack.ofValues isBig (← many (value ⟨version, true⟩) depth).reverse) := by
    refine Cuts.after (fun depth => ?_) (isLocal_word 4)
    refine Cuts.after (fun _ => ?_) (isLocal_require _)
    exact (cuts_many (cuts_value old) values depth).map (isLocal_many values depth) fun values =>
      Stack.ofValues isBig values.reverse
  rw [stack, stack]
  dsimp only
  split
  · exact Cuts.after levels isLocal_flag
  · exact Cuts.after levels (isLocal_pure false)

theorem cuts_variableEntry (old : holdsLongTexts version = false) :
    Cuts (variableEntry ⟨version, false⟩) (variableEntry ⟨version, true⟩) := by
  have noLevels := holdsLevels_of_old old
  refine Cuts.after (fun name => ?_) isLocal_name
  have behind (place : Int × UInt8) := (cuts_value old).map (isLocal_value ⟨version, false⟩)
    (Variable.mk name place.1 place.2)
  simp only [noLevels]
  exact Cuts.after behind (isLocal_pure (Variable.globalLevel, 0))

theorem cuts_body (old : holdsLongTexts version = false) :
    Cuts (body ⟨version, false⟩) (body ⟨version, true⟩) := by
  -- What is being typed and edited, and the devices.
  refine Cuts.after (fun mode => Cuts.after (fun task => ?_) isLocal_task) isLocal_byte
  refine Cuts.after (fun entry => ?_) (isLocal_optional isLocal_shortText)
  refine Cuts.after (fun pending => Cuts.after (fun digits => ?_) isLocal_shortText) isLocal_pending
  refine Cuts.after (fun editor => ?_) (isLocal_optional (isLocal_editor version))
  refine Cuts.after (fun prompt => ?_) (isLocal_optional isLocal_prompt)
  refine Cuts.after (fun lastError => ?_) (isLocal_word 2)
  refine Cuts.after (fun generator => ?_) (isLocal_generator version)
  refine Cuts.after (fun printsOnStop => Cuts.after (fun keys => ?_) isLocal_keys) isLocal_flag
  refine Cuts.after (fun pixels => Cuts.after (fun display => ?_) (isLocal_sound _)) (isLocal_bytes _)
  refine Cuts.after (fun program => Cuts.after (fun address => ?_) isLocal_address) (isLocal_word 4)
  -- The values.
  refine (cuts_stack old).bind (isLocal_stack _) fun stack => ?_
  refine (cuts_value old).bind (isLocal_value _) fun lastX => ?_
  refine Cuts.after (fun alpha => Cuts.after (fun flags => ?_) isLocal_flags) isLocal_alpha
  have entry := isLocal_variableEntry ⟨version, false⟩
  have entries : Cuts (counted (variableEntry ⟨version, false⟩)) (counted (variableEntry ⟨version, true⟩)) :=
    Cuts.after (cuts_many (cuts_variableEntry old) entry) (isLocal_word 4)
  refine entries.bind (isLocal_counted entry) fun entries => ?_
  -- The programs and what calls them.
  refine Cuts.after (fun bindings => ?_) (isLocal_sound _)
  refine Cuts.after (fun programs => ?_) (isLocal_counted isLocal_program)
  refine Cuts.after (fun library => Cuts.after (fun _ => ?_) (isLocal_require _)) (isLocal_sound _)
  refine Cuts.after (fun returns => ?_) (isLocal_returns version library)
  refine Cuts.after (fun solver => Cuts.after (fun integrator => ?_) isLocal_integrator) isLocal_solver
  exact cuts_self (isLocal_get (fun input => isLocal_pure _) fun _ _ => rfl)

/-- Reading files of an older layout with long matrix texts refused, and with such texts cut. -/
theorem cuts_file (old : holdsLongTexts version = false) :
    Cuts (file ⟨version, false⟩) (file ⟨version, true⟩) := by
  refine Cuts.after (fun _ => ?_) (isLocal_signature version)
  refine Cuts.after (fun _ => ?_) (isLocal_require _)
  refine Cuts.after (fun _ => ?_) (isLocal_platform maximalPlatformLength)
  refine Cuts.after (fun kind => ?_) isLocal_byte
  refine Cuts.after (fun _ => ?_) (isLocal_require _)
  refine (cuts_body old).bind (isLocal_body _) fun machine => ?_
  exact cuts_self ((isLocal_signature version).map fun _ => machine.checkEditor)

/-! ## What is behind the sixth byte -/

/-- What is wrong with a file before long matrix texts are cut. -/
def damage? (version : Nat) (bytes : Bytes) : Option Damage :=
  match (file ⟨version, false⟩).run { bytes } with
  | .ok _ => none
  | .error damage => some damage

/-- The next byte of a file that starts like this is the length of a matrix text: nothing is wrong with
the start, except that the file ends there, and a length above six is wrong with it as soon as it is
there. -/
def IsBeforeText (version : Nat) (front : Bytes) : Prop :=
  damage? version front = some .malformed ∧ damage? version (front ++ [7]) = some .longMatrixText

instance (version : Nat) (front : Bytes) : Decidable (IsBeforeText version front) :=
  inferInstanceAs (Decidable (_ ∧ _))

/-- What two files have behind a front differs at most in what matrix texts have behind their sixth
byte. So a text of six bytes may have become longer. In the front, long texts are cut. -/
inductive SameUpToSix (version : Nat) : (front file other : Bytes) → Prop where
  | rest (front rest : Bytes) : SameUpToSix version front rest rest
  | byte {front file other : Bytes} (byte : UInt8)
      (behind : SameUpToSix version (front ++ [byte]) file other) :
      SameUpToSix version front (byte :: file) (byte :: other)
  | text {front file other : Bytes} (text extra otherExtra : Bytes)
      (expected : IsBeforeText version front) (isFull : text.length = shortTextLength)
      (fits : (text ++ extra).length ≤ maximalShortLength)
      (otherFits : (text ++ otherExtra).length ≤ maximalShortLength)
      (behind : SameUpToSix version (front ++ matrixText text) file other) :
      SameUpToSix version front (matrixText (text ++ extra) ++ file)
        (matrixText (text ++ otherExtra) ++ other)

/-- What both files start with may be the front of both. -/
theorem SameUpToSix.append {front file other : Bytes} (start : Bytes)
    (behind : SameUpToSix version (front ++ start) file other) :
    SameUpToSix version front (start ++ file) (start ++ other) := by
  induction start generalizing front with
  | nil => simpa using behind
  | cons first start ih =>
      refine .byte first (ih ?_)
      rwa [List.append_assoc]

theorem damage?_eq_some {bytes : Bytes} {damage : Damage} :
    damage? version bytes = some damage ↔ (file ⟨version, false⟩).run { bytes } = .error damage := by
  rw [damage?]
  split <;> simp_all

/-- Layouts with long texts know no text that is too long, and read no file twice. -/
theorem damage?_ne_longMatrixText (long : holdsLongTexts version = true) (bytes : Bytes) :
    damage? version bytes ≠ some .longMatrixText := by
  intro complains
  have refuses := (isLocal_file ⟨version, false⟩).refused (damage?_eq_some.mp complains)
  exact absurd refuses.1 (by simp [long])

theorem IsBeforeText.lacksLongTexts {front : Bytes} (expected : IsBeforeText version front) :
    holdsLongTexts version = false := by
  by_contra long
  exact damage?_ne_longMatrixText (by simpa using long) _ expected.2

/-- What is before a text is what the readers meet it behind. -/
theorem IsBeforeText.meetsText {front : Bytes} (expected : IsBeforeText version front) :
    MeetsText (file ⟨version, false⟩) (file ⟨version, true⟩) { bytes := [] } front := by
  have old := expected.lacksLongTexts
  obtain ⟨before, length, behind, split, isLong, meets⟩ :=
    (cuts_file old).meets (damage?_eq_some.mp expected.2)
  rcases behind.eq_nil_or_concat with rfl | ⟨between, last, rfl⟩
  · obtain ⟨rfl, -⟩ := List.append_inj' split rfl
    exact ⟨meets.needsMore, meets.complains, meets.cuts⟩
  · -- A length in front of the last byte were too long for the front alone.
    have isFront : front = before ++ length :: between := by
      rw [List.concat_eq_append, ← List.cons_append, ← List.append_assoc] at split
      exact (List.append_inj' split rfl).1
    have malformed := damage?_eq_some.mp expected.1
    rw [isFront] at malformed
    have complains := meets.complains length between isLong
    rw [malformed] at complains
    cases complains

/-- The first matrix text that is too long is what is wrong with a file. -/
theorem damage?_eq_longMatrixText_iff {bytes : Bytes} :
    damage? version bytes = some .longMatrixText ↔
      ∃ front length behind, bytes = front ++ length :: behind ∧ shortTextLength < length.toNat ∧
        IsBeforeText version front := by
  constructor
  · intro complains
    have old : holdsLongTexts version = false := by
      by_contra long
      exact damage?_ne_longMatrixText (by simpa using long) _ complains
    obtain ⟨front, length, behind, split, isLong, meets⟩ :=
      (cuts_file old).meets (damage?_eq_some.mp complains)
    exact ⟨front, length, behind, split, isLong, damage?_eq_some.mpr meets.needsMore,
      damage?_eq_some.mpr (meets.complains 7 [] (by decide))⟩
  · rintro ⟨front, length, behind, rfl, isLong, expected⟩
    exact damage?_eq_some.mpr (expected.meetsText.complains length behind isLong)

theorem SameUpToSix.run_eq {front file other : Bytes} (same : SameUpToSix version front file other) :
    (Reader.file ⟨version, true⟩).run { bytes := front ++ file } =
      (Reader.file ⟨version, true⟩).run { bytes := front ++ other } := by
  induction same with
  | rest front rest => rfl
  | byte byte behind ih => simpa using ih
  | text text extra otherExtra expected isFull fits otherFits behind ih =>
      have cuts := expected.meetsText.cuts text
      rw [List.append_assoc, List.append_assoc] at ih
      exact (cuts extra _ isFull fits).trans (ih.trans (cuts otherExtra _ isFull otherFits).symm)

end

end Keystroke.StateFile
