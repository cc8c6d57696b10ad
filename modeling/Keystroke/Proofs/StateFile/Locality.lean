import Mathlib
import Keystroke.Proofs.StateFile.Fields

/-!
# What a reader looks at

A reader that succeeds looks at what it takes and at nothing behind that. With the same bytes in front
of any others it takes the same ones, gives the same result and leaves the others. Only the bound on
the nesting of values depends on how many bytes there are, and what is taken has room for its own nesting.
-/

namespace Keystroke.StateFile

open Reader

/-- Whether matrix texts that are too long for the layout make a reader refuse the file. -/
def ReaderContext.RefusesLongTexts (context : ReaderContext) : Prop :=
  holdsLongTexts context.version = false ∧ context.cutsTexts = false

section

variable {α β : Type} {overlong : Prop}

/-- Whatever one reader takes, others take as well, with the same result and anything behind it, if they
have room for as many bytes. Only if `overlong` holds may the reader complain about a long matrix text. -/
structure IsLocalWithin (overlong : Prop) (reader : Reader α) (others : Nat → Reader α) : Prop where
  taken {input : Input} {result : α} {after : Input} :
    reader.run input = .ok (result, after) →
      ∃ front, input.bytes = front ++ after.bytes ∧
        ∀ rest room, front.length ≤ room →
          (others room).run { input with bytes := front ++ rest } =
            .ok (result, { after with bytes := rest })
  refused {input : Input} : reader.run input = .error .longMatrixText → overlong

/-- A reader that does not look behind what it takes. -/
abbrev IsLocal (overlong : Prop) (reader : Reader α) : Prop := IsLocalWithin overlong reader fun _ => reader

/-- What a local reader takes, it takes whatever is behind. -/
theorem IsLocal.exists_front {reader : Reader α} (isLocal : IsLocal overlong reader) {input : Input}
    {result : α} {after : Input} (run : reader.run input = .ok (result, after)) :
    ∃ front, input.bytes = front ++ after.bytes ∧ Takes reader front input after result := by
  obtain ⟨front, isFront, again⟩ := isLocal.taken run
  exact ⟨front, isFront, fun rest => again rest _ le_rfl⟩

/-! ## Sequences and branches -/

theorem IsLocalWithin.bind {reader : Reader α} {others : Nat → Reader α} {next : α → Reader β}
    {othersNext : Nat → α → Reader β} (front : IsLocalWithin overlong reader others)
    (behind : ∀ value, IsLocalWithin overlong (next value) (othersNext · value)) :
    IsLocalWithin overlong (reader >>= next) fun room => others room >>= othersNext room where
  taken {input result after} run := by
    rw [StateT.run_bind] at run
    rcases ran : reader.run input with _ | ⟨value, between⟩
    · rw [ran] at run
      cases run
    · rw [ran] at run
      obtain ⟨first, isFirst, againFirst⟩ := front.taken ran
      obtain ⟨second, isSecond, againSecond⟩ := (behind value).taken run
      refine ⟨first ++ second, by rw [isFirst, isSecond, List.append_assoc], fun rest room fits => ?_⟩
      rw [List.length_append] at fits
      rw [StateT.run_bind, List.append_assoc, againFirst _ _ (by omega)]
      exact againSecond rest room (by omega)
  refused {input} run := by
    rw [StateT.run_bind] at run
    rcases ran : reader.run input with damage | ⟨value, between⟩
    · rw [ran] at run
      cases run
      exact front.refused ran
    · rw [ran] at run
      exact (behind value).refused run

theorem IsLocalWithin.weaken {weaker : Prop} {reader : Reader α} {others : Nat → Reader α}
    (isLocal : IsLocalWithin overlong reader others) (implies : overlong → weaker) :
    IsLocalWithin weaker reader others where
  taken := isLocal.taken
  refused run := implies (isLocal.refused run)

theorem isLocal_pure (value : α) : IsLocal overlong (pure value : Reader α) where
  taken run := by
    cases run
    exact ⟨[], rfl, fun _ _ _ => rfl⟩
  refused run := by cases run

theorem IsLocalWithin.map {reader : Reader α} {others : Nat → Reader α}
    (front : IsLocalWithin overlong reader others) (f : α → β) :
    IsLocalWithin overlong (do return f (← reader)) fun room => do return f (← others room) :=
  front.bind fun value => isLocal_pure (f value)

theorem isLocal_refuse {others : Nat → Reader α} : IsLocalWithin overlong refuse others where
  taken run := by cases run
  refused run := by cases run

theorem isLocal_require (condition : Bool) : IsLocal overlong (require condition) := by
  cases condition with
  | false => exact isLocal_refuse
  | true => exact isLocal_pure ()

theorem isLocal_sound (outcome : Outcome α) : IsLocal overlong (sound outcome) := by
  cases outcome with
  | error error => exact isLocal_refuse
  | ok value => exact isLocal_pure value

theorem isLocal_present (found : Option α) : IsLocal overlong (present found) := by
  cases found with
  | none => exact isLocal_refuse
  | some value => exact isLocal_pure value

/-- A reader that looks at what is remembered, and not at the bytes. -/
theorem isLocal_get {next : Input → Reader α} (behind : ∀ input, IsLocal overlong (next input))
    (ignores : ∀ input bytes, next { input with bytes } = next input) :
    IsLocal overlong (do next (← get)) where
  taken {input result after} run := by
    obtain ⟨front, isFront, again⟩ := (behind input).taken (run : (next input).run input = _)
    refine ⟨front, isFront, fun rest room fits => ?_⟩
    change (next { input with bytes := front ++ rest }).run _ = _
    rw [ignores]
    exact again rest room fits
  refused {input} run := (behind input).refused (run : (next input).run input = _)

theorem isLocal_ite {condition : Prop} [Decidable condition] {yes no : Reader α}
    {othersYes othersNo : Nat → Reader α} (whenTrue : IsLocalWithin overlong yes othersYes)
    (whenFalse : IsLocalWithin overlong no othersNo) :
    IsLocalWithin overlong (if condition then yes else no)
      fun room => if condition then othersYes room else othersNo room := by
  split
  · exact whenTrue
  · exact whenFalse

/-! ## Fields -/

theorem isLocal_byte : IsLocal overlong byte where
  taken {input result after} run := by
    rcases input with ⟨_ | ⟨first, rest⟩, shared, nextStorage⟩
    · cases run
    · cases run
      exact ⟨[result], rfl, fun _ _ _ => rfl⟩
  refused {input} run := by
    rcases input with ⟨_ | ⟨first, rest⟩, shared, nextStorage⟩ <;> cases run

theorem run_bytes (count : Nat) (input : Input) :
    (bytes count).run input =
      if count ≤ input.bytes.length then
        .ok (input.bytes.take count, { input with bytes := input.bytes.drop count })
      else .error .malformed := by
  by_cases enough : count ≤ input.bytes.length
  · simp [bytes, require, enough]
    rfl
  · have short : ((input.bytes.take count).length == count) = false := by simpa using enough
    rw [if_neg enough]
    change ((do require _; set _; return _ : Reader (List UInt8))).run input = _
    rw [short]
    rfl

theorem isLocal_bytes (count : Nat) : IsLocal overlong (bytes count) where
  taken {input result after} run := by
    rw [run_bytes] at run
    split at run
    · next enough =>
        cases run
        have reads := reads_bytes (input.bytes.take count)
        rw [List.length_take_of_le enough] at reads
        exact ⟨_, (List.take_append_drop count input.bytes).symm, fun rest _ _ => reads input rest⟩
    · cases run
  refused {input} run := by
    rw [run_bytes] at run
    split at run <;> cases run

theorem isLocal_flag : IsLocal overlong flag := by
  apply isLocal_byte.bind
  intro code
  match code.toNat with
  | 0 => exact isLocal_pure false
  | 1 => exact isLocal_pure true
  | _ + 2 => exact isLocal_refuse

theorem isLocal_word (count : Nat) : IsLocal overlong (word count) :=
  (isLocal_bytes count).map Codec.wordOf

theorem isLocal_integer : IsLocal overlong integer :=
  (isLocal_word 4).map fun (number : Nat) => (number : Int).bmod 0x100000000

theorem isLocal_word64 : IsLocal overlong word64 :=
  (isLocal_word 8).map Nat.toUInt64

theorem isLocal_real : IsLocal overlong real :=
  isLocal_word64.map Binary64.mk

theorem isLocal_complex : IsLocal overlong complex :=
  isLocal_real.bind fun re => isLocal_real.map (ComplexNumber.mk re)

theorem isLocal_short : IsLocal overlong short :=
  isLocal_byte.bind fun length => isLocal_bytes length.toNat

theorem isLocal_long : IsLocal overlong long :=
  (isLocal_word 4).bind isLocal_bytes

theorem isLocal_shortText : IsLocal overlong shortText :=
  isLocal_short.bind fun text => isLocal_present (Text.ofBytes? text)

theorem isLocal_address : IsLocal overlong address := by
  apply isLocal_integer.bind
  intro place
  match place with
  | .ofNat place => exact isLocal_pure (some place)
  | .negSucc 0 => exact isLocal_pure none
  | .negSucc (_ + 1) => exact isLocal_refuse

theorem isLocal_many {reader : Reader α} {others : Nat → Reader α}
    (item : IsLocalWithin overlong reader others) (count : Nat) :
    IsLocalWithin overlong (many reader count) fun room => many (others room) count := by
  suffices loop : ∀ reversed, IsLocalWithin overlong (many.go reader count reversed)
      fun room => many.go (others room) count reversed by
    exact loop []
  induction count with
  | zero =>
      intro reversed
      exact isLocal_pure reversed.reverse
  | succ count ih =>
      intro reversed
      apply item.bind
      intro value
      exact ih (value :: reversed)

theorem isLocal_counted {reader : Reader α} (item : IsLocal overlong reader) :
    IsLocal overlong (counted reader) :=
  (isLocal_word 4).bind fun count => isLocal_many item count

theorem isLocal_optional {reader : Reader α} (item : IsLocal overlong reader) :
    IsLocal overlong (optional reader) := by
  apply isLocal_flag.bind
  intro present
  exact isLocal_ite (item.map some) (isLocal_pure none)

/-! ## Arrays -/

theorem isLocal_arrayHead (version : Nat) : IsLocal overlong (Reader.arrayHead version) := by
  apply isLocal_integer.bind
  intro count
  apply isLocal_ite
  · exact (isLocal_require _).map fun _ => ArrayHead.contents count.toNat false
  apply isLocal_ite
  · exact (isLocal_word 4).map fun index =>
      if index = emptyListMark then ArrayHead.emptyList else .earlier index
  apply isLocal_ite
  · exact isLocal_pure (ArrayHead.contents count.toNat false)
  · exact (isLocal_require _).map fun _ => ArrayHead.contents count.natAbs true

theorem isLocal_earlierArray (index typeCode : Nat) :
    IsLocal overlong (earlierArray index typeCode) := by
  refine isLocal_get (fun input => ?_) fun _ _ => rfl
  rcases input.shared[index]? with _ | _ | value
  · exact isLocal_refuse
  · exact isLocal_refuse
  · exact isLocal_ite (isLocal_pure value) isLocal_refuse

theorem isLocal_reserve (isShared : Bool) : IsLocal overlong (reserve isShared) where
  taken run := by
    cases isShared <;>
    · cases run
      exact ⟨[], rfl, fun _ _ _ => rfl⟩
  refused run := by cases isShared <;> cases run

theorem isLocal_finish (isShared : Bool) (index : Nat) (value : Value) :
    IsLocal overlong (Reader.finish isShared index value) where
  taken run := by
    cases run
    exact ⟨[], rfl, fun _ _ _ => rfl⟩
  refused run := by cases run

theorem isLocal_array (version typeCode : Nat) {whenEmpty : Reader Value}
    {othersEmpty : Nat → Reader Value} {contents : Nat → Reader Value}
    {othersContents : Nat → Nat → Reader Value} (empty : IsLocalWithin overlong whenEmpty othersEmpty)
    (full : ∀ count, IsLocalWithin overlong (contents count) (othersContents · count)) :
    IsLocalWithin overlong (array version typeCode whenEmpty contents)
      fun room => array version typeCode (othersEmpty room) (othersContents room) := by
  apply (isLocal_arrayHead version).bind
  intro head
  match head with
  | .earlier index => exact isLocal_earlierArray index typeCode
  | .emptyList => exact empty
  | .contents count isShared =>
      apply (isLocal_reserve isShared).bind
      intro index
      apply (full count).bind
      intro value
      exact isLocal_finish isShared index value

theorem isLocal_grid {reader : Reader α} (element : IsLocal overlong reader) (rows : Nat) :
    IsLocal overlong (grid reader rows) := by
  apply isLocal_integer.bind
  intro cols
  apply (isLocal_require _).bind
  intro _
  apply (isLocal_many element _).bind
  intro cells
  exact isLocal_sound _

/-! ## Values -/

theorem isLocal_longCell : IsLocal overlong longCell := by
  apply isLocal_byte.bind
  intro code
  apply isLocal_ite
  · exact isLocal_real.map Cell.number
  apply isLocal_ite
  · apply isLocal_short.bind
    intro text
    exact (isLocal_require _).map fun _ => Cell.text text
  apply isLocal_ite
  · apply isLocal_long.bind
    intro text
    exact (isLocal_require _).map fun _ => Cell.text text
  · exact isLocal_refuse

theorem isLocal_oldCell (cutsTexts : Bool) : IsLocal (cutsTexts = false) (oldCell cutsTexts) := by
  apply isLocal_flag.bind
  intro isText
  apply isLocal_ite
  · apply isLocal_byte.bind
    intro length
    have behind : IsLocal (cutsTexts = false) (do
        return Cell.text ((← bytes length.toNat).take shortTextLength)) :=
      (isLocal_bytes length.toNat).map _
    cases cutsTexts with
    | true =>
        dsimp only
        rw [if_neg (by simp)]
        exact behind
    | false =>
        refine isLocal_ite (IsLocalWithin.bind ?_ fun _ => behind) behind
        exact { taken := nofun, refused := fun _ => rfl }
  · exact isLocal_real.map Cell.number

theorem isLocal_cell (context : ReaderContext) :
    IsLocal context.RefusesLongTexts (cell context) := by
  rw [cell]
  cases long : holdsLongTexts context.version with
  | true => exact isLocal_longCell
  | false => exact (isLocal_oldCell context.cutsTexts).weaken fun strict => ⟨long, strict⟩

theorem isLocal_text (version : Nat) : IsLocal overlong (text version) :=
  isLocal_ite (isLocal_long.bind fun _ => isLocal_sound _) (isLocal_short.bind fun _ => isLocal_sound _)

/-- Behind a byte there is room for one less. -/
theorem isLocal_behindByte {next : UInt8 → Reader α} {others : Nat → Reader α}
    {othersNext : Nat → UInt8 → Reader α}
    (opens : ∀ room, others (room + 1) = byte >>= othersNext room)
    (behind : ∀ code, IsLocalWithin overlong (next code) (othersNext · code)) :
    IsLocalWithin overlong (byte >>= next) others where
  taken {input result after} run := by
    rcases input with ⟨_ | ⟨code, rest⟩, shared, nextStorage⟩
    · cases run
    · obtain ⟨front, isFront, again⟩ := (behind code).taken (run : (next code).run _ = _)
      refine ⟨code :: front, congrArg (code :: ·) isFront, fun rest room fits => ?_⟩
      obtain ⟨room, rfl⟩ : ∃ less, room = less + 1 := ⟨room - 1, by simp at fits; omega⟩
      rw [opens]
      exact again rest room (Nat.le_of_succ_le_succ fits)
  refused := (isLocal_byte.bind fun code => (behind code)).refused

theorem isLocal_valueWithin (context : ReaderContext) (depth : Nat) :
    IsLocalWithin context.RefusesLongTexts (valueWithin context depth) (valueWithin context) := by
  induction depth with
  | zero => exact isLocal_refuse
  | succ depth ih =>
      refine isLocal_behindByte (fun room => rfl) fun code => ?_
      generalize code.toNat = typeCode
      match typeCode with
      | 0 => exact isLocal_pure Value.null
      | 1 => exact isLocal_real.map Value.real
      | 2 => exact isLocal_complex.map Value.complex
      | 3 =>
          apply isLocal_array _ _ isLocal_refuse
          intro rows
          exact (isLocal_grid (isLocal_cell context) rows).map Value.newRealMatrix
      | 4 =>
          apply isLocal_array _ _ isLocal_refuse
          intro rows
          exact (isLocal_grid isLocal_complex rows).map Value.newComplexMatrix
      | 5 => exact isLocal_text context.version
      | 6 =>
          apply isLocal_ite _ isLocal_refuse
          apply isLocal_array _ _ (isLocal_finish false 0 _)
          intro count
          exact (isLocal_many ih count).map (Value.list none)
      | _ + 7 => exact isLocal_refuse

theorem isLocal_value (context : ReaderContext) :
    IsLocal context.RefusesLongTexts (value context) where
  taken {input result after} run := by
    obtain ⟨front, isFront, again⟩ := (isLocal_valueWithin context (input.bytes.length + 1)).taken run
    exact ⟨front, isFront, fun rest _ _ => again rest _ (by simp; omega)⟩
  refused {input} run := (isLocal_valueWithin context (input.bytes.length + 1)).refused run

/-! ## The parts of a machine -/

theorem isLocal_task : IsLocal overlong task := by
  apply isLocal_byte.bind
  intro code
  apply isLocal_ite (isLocal_pure none)
  apply isLocal_ite (isLocal_pure (some Task.awaitingKey))
  apply isLocal_ite ((isLocal_word 4).map fun next => some (Task.printingCatalog next))
  exact isLocal_refuse

theorem isLocal_pending : IsLocal overlong pending := by
  apply (isLocal_word 2).bind
  intro code
  exact isLocal_ite (isLocal_pure none) ((isLocal_present _).map some)

theorem isLocal_name : IsLocal overlong name := by
  apply isLocal_short.bind
  intro name
  exact (isLocal_sound _).map fun _ => name

theorem isLocal_editor (version : Nat) : IsLocal overlong (editor version) := by
  apply isLocal_flag.bind
  intro isEditing
  apply isLocal_name.bind
  intro name
  apply isLocal_integer.bind
  intro level
  apply (isLocal_word 4).bind
  intro row
  apply (isLocal_word 4).bind
  intro col
  have behind (path : List Nat) : IsLocal overlong (pure (Editor.mk isEditing name level row col path)) :=
    isLocal_pure _
  exact isLocal_ite ((isLocal_counted (isLocal_word 4)).bind behind) ((isLocal_pure []).bind behind)

theorem isLocal_prompt : IsLocal overlong prompt := by
  apply isLocal_long.bind
  intro instruction
  apply (isLocal_require _).bind
  intro _
  apply (isLocal_require _).bind
  intro _
  exact isLocal_shortText.map (Prompt.mk _)

theorem isLocal_generator (version : Nat) : IsLocal overlong (generator version) :=
  isLocal_ite (isLocal_word64.bind fun first => isLocal_word64.map (Generator.mk first))
    (isLocal_real.map Generator.ofSeed)

theorem isLocal_keys : IsLocal overlong keys := by
  have isLocal_key : IsLocal overlong key :=
    isLocal_flag.bind fun isShifted => isLocal_byte.map (Key.mk isShifted)
  apply isLocal_byte.bind
  intro count
  apply (isLocal_many isLocal_key count.toNat).bind
  intro keys
  exact (isLocal_require _).map fun _ => KeyQueue.mk keys

theorem isLocal_stack (context : ReaderContext) : IsLocal context.RefusesLongTexts (stack context) := by
  have levels (isBig : Bool) : IsLocal context.RefusesLongTexts (do
      let depth ← word 4
      require (isBig || depth == Stack.fourLevels)
      return Stack.ofValues isBig (← many (value context) depth).reverse) := by
    apply (isLocal_word 4).bind
    intro depth
    apply (isLocal_require _).bind
    intro _
    exact (isLocal_many (isLocal_value context) depth).map fun values =>
      Stack.ofValues isBig values.reverse
  exact isLocal_ite (isLocal_flag.bind levels) ((isLocal_pure false).bind levels)

theorem isLocal_alpha : IsLocal overlong alpha := by
  apply isLocal_short.bind
  intro alpha
  exact (isLocal_require _).map fun _ => alpha

theorem isLocal_flags : IsLocal overlong flags := by
  apply isLocal_byte.bind
  intro count
  exact (isLocal_many isLocal_flag count.toNat).bind fun _ => isLocal_sound _

theorem isLocal_variableEntry (context : ReaderContext) :
    IsLocal context.RefusesLongTexts (variableEntry context) := by
  apply isLocal_name.bind
  intro name
  have behind (place : Int × UInt8) := (isLocal_value context).map
    (Variable.mk name place.1 place.2)
  apply isLocal_ite
  · apply isLocal_integer.bind
    intro level
    apply isLocal_byte.bind
    intro marks
    exact (isLocal_pure (level, marks)).bind behind
  · exact (isLocal_pure (Variable.globalLevel, 0)).bind behind

theorem isLocal_program : IsLocal overlong Reader.program := by
  apply isLocal_long.bind
  intro text
  apply isLocal_byte.bind
  intro bits
  exact isLocal_sound _

theorem isLocal_frame (version : Nat) (library : Library) :
    IsLocal overlong (frame version library) := by
  apply isLocal_integer.bind
  intro code
  apply (isLocal_present _).bind
  intro caller
  apply isLocal_address.bind
  intro address
  have behind : IsLocal overlong (if holdsLevels version then do
        return ({ caller, address } : Frame).withBits (← byte)
      else return { caller, address }) :=
    isLocal_ite (isLocal_byte.map _) (isLocal_pure _)
  cases caller with
  | program index => exact (isLocal_require _).bind fun _ => behind
  | solver => exact behind
  | integrator => exact behind

theorem isLocal_returns (version : Nat) (library : Library) :
    IsLocal overlong (returns version library) :=
  (isLocal_counted (isLocal_frame version library)).bind fun _ => isLocal_sound _

theorem isLocal_solver : IsLocal overlong solver := by
  iterate 3 refine isLocal_short.bind fun _ => ?_
  refine isLocal_flag.bind fun _ => (isLocal_word 4).bind fun _ => isLocal_address.bind fun _ => ?_
  refine isLocal_byte.bind fun _ => isLocal_byte.bind fun _ => isLocal_flag.bind fun _ => ?_
  refine isLocal_integer.bind fun _ => ?_
  iterate 10 refine isLocal_real.bind fun _ => ?_
  exact isLocal_real.map _

theorem isLocal_reals (count : Nat) : IsLocal overlong (reals count) := by
  apply (isLocal_many isLocal_real count).bind
  intro numbers
  dsimp only
  split
  · exact isLocal_pure _
  · exact isLocal_refuse

theorem isLocal_integrator : IsLocal overlong integrator := by
  iterate 3 refine isLocal_short.bind fun _ => ?_
  refine isLocal_flag.bind fun _ => (isLocal_word 4).bind fun _ => isLocal_address.bind fun _ => ?_
  refine isLocal_byte.bind fun _ => ?_
  iterate 6 refine isLocal_real.bind fun _ => ?_
  iterate 3 refine (isLocal_word 4).bind fun _ => ?_
  iterate 2 refine isLocal_real.bind fun _ => ?_
  refine (isLocal_reals 5).bind fun _ => (isLocal_reals 6).bind fun _ => (isLocal_word 4).bind fun _ => ?_
  iterate 4 refine isLocal_real.bind fun _ => ?_
  exact isLocal_real.map _

/-! ## The whole file -/

theorem isLocal_signature (version : Nat) :
    IsLocal overlong (Reader.signature version) := by
  apply (isLocal_bytes 4).bind
  intro first
  apply (isLocal_require _).bind
  intro _
  exact (isLocal_word 4).bind fun _ => isLocal_require _

theorem isLocal_platform (limit : Nat) : IsLocal overlong (platform limit) := by
  induction limit with
  | zero => exact isLocal_byte.bind fun _ => isLocal_require _
  | succ limit ih =>
      apply isLocal_byte.bind
      intro byte
      exact isLocal_ite ih (isLocal_pure ())

theorem isLocal_body (context : ReaderContext) : IsLocal context.RefusesLongTexts (body context) := by
  -- What is being typed and edited.
  refine isLocal_byte.bind fun mode => isLocal_task.bind fun task => ?_
  refine (isLocal_optional isLocal_shortText).bind fun entry => isLocal_pending.bind fun pending => ?_
  refine isLocal_shortText.bind fun digits => ?_
  refine (isLocal_optional (isLocal_editor context.version)).bind fun editor => ?_
  refine (isLocal_optional isLocal_prompt).bind fun prompt => ?_
  -- The devices.
  refine (isLocal_word 2).bind fun lastError => (isLocal_generator context.version).bind fun _ => ?_
  refine isLocal_flag.bind fun printsOnStop => isLocal_keys.bind fun keys => ?_
  refine (isLocal_bytes _).bind fun pixels => (isLocal_sound _).bind fun display => ?_
  -- The registers.
  refine (isLocal_word 4).bind fun program => isLocal_address.bind fun address => ?_
  refine (isLocal_stack context).bind fun stack => (isLocal_value context).bind fun lastX => ?_
  refine isLocal_alpha.bind fun alpha => isLocal_flags.bind fun flags => ?_
  refine (isLocal_counted (isLocal_variableEntry context)).bind fun entries => ?_
  refine (isLocal_sound _).bind fun bindings => ?_
  -- The programs and what calls them.
  refine (isLocal_counted isLocal_program).bind fun programs => (isLocal_sound _).bind fun library => ?_
  refine (isLocal_require _).bind fun _ => (isLocal_returns context.version library).bind fun returns => ?_
  refine isLocal_solver.bind fun solver => isLocal_integrator.bind fun integrator => ?_
  exact isLocal_get (fun input => isLocal_pure _) fun _ _ => rfl

/-- A file that is read is read the same with anything behind it. -/
theorem isLocal_file (context : ReaderContext) : IsLocal context.RefusesLongTexts (file context) := by
  apply (isLocal_signature context.version).bind
  intro _
  apply (isLocal_require _).bind
  intro _
  apply (isLocal_platform maximalPlatformLength).bind
  intro _
  apply isLocal_byte.bind
  intro kind
  apply (isLocal_require _).bind
  intro _
  apply (isLocal_body context).bind
  intro machine
  exact (isLocal_signature context.version).map fun _ => machine.checkEditor

end

end Keystroke.StateFile
