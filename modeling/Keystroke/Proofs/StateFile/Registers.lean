import Mathlib
import Keystroke.Proofs.StateFile.Parts
import Keystroke.Proofs.StateFile.Values

/-!
# Stack and variables in state files

Everything that holds values: the stack, the last X and the variables, which share arrays among each
other. A machine is written with no array open, so between two of its values none is open either.
-/

namespace Keystroke

/-- A variable that differs from another at most by the storages of its arrays. -/
structure Variable.IsCopy (number : Nat → Option Nat) (entry copy : Variable) : Prop where
  name : copy.name = entry.name
  level : copy.level = entry.level
  marks : copy.marks = entry.marks
  value : Value.IsCopy number entry.value copy.value

/-- What holds of a variable besides its value. -/
structure Variable.IsStorable (entry : Variable) : Prop where
  name : Variable.checkName entry.name = .ok ()
  level : IsInt32 entry.level

/-- What holds of every machine: what its parts promise each other, and the sizes that their fields in a
state file can hold. -/
structure Machine.IsStorable (machine : Machine) : Prop where
  /-- Values in one storage are the same array. -/
  held : ∃ heap : Nat → Value, ∀ value ∈ StateFile.heldValues machine, value.IsHeldIn heap
  /-- Every index is less than the mark of an empty list. -/
  fewShared : (StateFile.sharedStorages machine).length < StateFile.emptyListMark
  depth : IsWord32 machine.stack.depth
  fourLevels : machine.stack.isBig = false → machine.stack.depth = Stack.fourLevels
  alpha : machine.alpha.length ≤ Machine.maximalAlphaLength
  variableCount : IsWord32 machine.bindings.entries.length
  bindings : ∀ entry ∈ machine.bindings.entries, entry.IsStorable
  levelOrder : Variables.inLevelOrder machine.bindings.entries = true
  task : ∀ next, machine.task = some (.printingCatalog next) → IsWord32 next
  entry : ∀ entry ∈ machine.entry, Text.IsShort (String.ofList entry.text)
  pendingDigits : Text.IsShort (String.ofList machine.pendingDigits)
  editor : ∀ editor ∈ machine.editor, editor.IsStorable
  prompt : ∀ prompt ∈ machine.prompt, prompt.IsStorable
  lastError : machine.lastError < 0x10000
  keys : machine.keys.keys.length ≤ KeyQueue.capacity
  programCount : machine.library.count ≤ 0x80000000
  hasProgram : machine.library.programs ≠ []
  programs : ∀ program ∈ machine.library.programs,
    Program.check program.text 0 false = .ok () ∧ IsWord32 program.text.length
  labels : machine.library = .ofPrograms machine.library.programs
  address : IsAddress machine.address
  place : StateFile.Reader.isPlace machine.library machine.program machine.address = true
  returns : Returns.IsStorable machine.library machine.returns
  solver : machine.solver.IsStorable
  integrator : machine.integrator.IsStorable

namespace StateFile

open Reader

section

variable {heap : Nat → Value} {shared total : List Nat} {point : Transfer}

/-- No array is open at a point of a transfer. -/
def Transfer.IsClosed (heap : Nat → Value) (point : Transfer) : Prop :=
  ∀ storage, ¬ point.IsOpen heap storage

theorem takes_value {context : ReaderContext} {bytes : Bytes} {before after : Input}
    {result : Value}
    (takes : ∀ depth, bytes.length < depth →
      Takes (valueWithin context depth) bytes before after result) :
    Takes (value context) bytes before after result := by
  intro rest
  have longer : bytes.length < (bytes ++ rest).length + 1 := by
    rw [List.length_append]
    omega
  exact takes _ longer rest

theorem transmits_level (mem_shared : ∀ storage, storage ∈ shared ↔ 1 < total.count storage)
    (few : shared.length < emptyListMark) {value : Value} (sound : point.IsSound heap shared)
    (closed : point.IsClosed heap) (held : value.IsHeldIn heap)
    (within : holdersOf point.counted value <:+ total) :
    Transmits heap shared point (holdersOf point.counted value)
      (fun number => Value.IsCopy number value) (valueField ⟨currentVersion, shared⟩ value)
      (fun _ => Reader.value ⟨currentVersion, false⟩) := by
  obtain ⟨later, result, isCounted, soundLater, leads, copied, bytes, written, takes⟩ :=
    transmits_value mem_shared few point value sound held within
      fun storage isOpen => absurd isOpen (closed storage)
  exact ⟨later, result, isCounted, soundLater, leads, copied, bytes, written,
    fun _ _ => takes_value takes⟩

theorem Transfer.LeadsTo.isClosed {later : Transfer} (leads : Transfer.LeadsTo heap point later)
    (closed : point.IsClosed heap) : later.IsClosed heap :=
  fun storage isOpen => closed storage (leads.isOpen isOpen)

theorem transmits_variable (mem_shared : ∀ storage, storage ∈ shared ↔ 1 < total.count storage)
    (few : shared.length < emptyListMark) {entry : Variable} (storable : entry.IsStorable)
    (sound : point.IsSound heap shared) (closed : point.IsClosed heap)
    (held : entry.value.IsHeldIn heap) (within : holdersOf point.counted entry.value <:+ total) :
    Transmits heap shared point (holdersOf point.counted entry.value)
      (fun number => Variable.IsCopy number entry) (variableField ⟨currentVersion, shared⟩ entry)
      (fun _ => variableEntry ⟨currentVersion, false⟩) := by
  obtain ⟨later, result, isCounted, soundLater, leads, copied, bytes, written, takes⟩ :=
    transmits_level mem_shared few sound closed held within
  obtain ⟨name, writtenName, readsName⟩ := keeps_name storable.name
  refine ⟨later, { entry with value := result }, isCounted, soundLater, leads,
    ⟨rfl, rfl, rfl, copied⟩, name ++ (integerField entry.level ++ [entry.marks]) ++ bytes, ?_,
    fun depth deep => ?_⟩
  · rw [variableField, writtenName]
    change (valueField ⟨currentVersion, shared⟩ entry.value >>= fun value =>
      pure (name ++ (integerField entry.level ++ [entry.marks]) ++ value)).run point.written = _
    rw [StateT.run_bind, written]
    rfl
  · have shorter : bytes.length < depth := by
      simp only [List.length_append] at deep
      omega
    rw [List.append_assoc, List.append_assoc]
    refine (readsName _).bind ((reads_integer storable.level.1 storable.level.2 _).bind ?_)
    refine (reads_byte entry.marks _).bind ?_
    change Takes (Reader.value _ >>= fun value => pure { entry with value }) _ _ _ _
    exact (takes depth shorter).then (Takes.pure _ _)

theorem transmits_levels (mem_shared : ∀ storage, storage ∈ shared ↔ 1 < total.count storage)
    (few : shared.length < emptyListMark) {values : List Value} (sound : point.IsSound heap shared)
    (closed : point.IsClosed heap) (held : ∀ value ∈ values, value.IsHeldIn heap)
    (within : holdersOfAll point.counted values <:+ total) :
    Transmits heap shared point (holdersOfAll point.counted values)
      (fun number => List.Forall₂ (Value.IsCopy number) values)
      (valueFields ⟨currentVersion, shared⟩ values)
      (fun _ => many (value ⟨currentVersion, false⟩) values.length) := by
  rw [← List.map_id values] at within
  have transmits := transmits_many (fun _ _ _ _ extended copied => copied.mono extended) values
    point sound within fun value member _ soundLater stillOpen withinValue =>
      transmits_level mem_shared few soundLater (fun storage isOpen =>
        closed storage (stillOpen storage isOpen)) (held value member) withinValue
  rw [List.map_id] at transmits
  rw [valueFields_eq]
  exact transmits

theorem transmits_variables (mem_shared : ∀ storage, storage ∈ shared ↔ 1 < total.count storage)
    (few : shared.length < emptyListMark) {entries : List Variable}
    (storable : ∀ entry ∈ entries, entry.IsStorable) (sound : point.IsSound heap shared)
    (closed : point.IsClosed heap) (held : ∀ entry ∈ entries, entry.value.IsHeldIn heap)
    (within : holdersOfAll point.counted (entries.map Variable.value) <:+ total) :
    Transmits heap shared point (holdersOfAll point.counted (entries.map Variable.value))
      (fun number => List.Forall₂ (Variable.IsCopy number) entries)
      (List.flatten <$> entries.mapM (variableField ⟨currentVersion, shared⟩))
      (fun _ => many (variableEntry ⟨currentVersion, false⟩) entries.length) :=
  transmits_many
    (fun _ _ _ _ extended copied => { copied with value := copied.value.mono extended })
    entries point sound within fun entry member _ soundLater stillOpen withinEntry =>
      transmits_variable mem_shared few (storable entry member) soundLater (fun storage isOpen =>
        closed storage (stillOpen storage isOpen)) (held entry member) withinEntry

end

/-! ## All values of a machine -/

theorem holdersOfAll_append (counted : List Nat) (values others : List Value) :
    holdersOfAll counted (values ++ others) =
      holdersOfAll (holdersOfAll counted values) others := by
  induction values generalizing counted with
  | nil => rfl
  | cons value values ih => exact ih _

theorem run_of_run_flatten {writer : Writer (List Bytes)} {bytes : Bytes} {written later : List Nat}
    (run : (List.flatten <$> writer).run written = .ok (bytes, later)) :
    ∃ parts, writer.run written = .ok (parts, later) ∧ parts.flatten = bytes := by
  rw [StateT.run_map] at run
  cases result : writer.run written with
  | error error =>
      rw [result] at run
      cases run
  | ok pair =>
      rw [result] at run
      cases run
      exact ⟨pair.1, rfl, rfl⟩

/-- The point at which nothing was written. -/
def Transfer.initial (input : Input) : Transfer := ⟨[], [], input, fun _ => none⟩

theorem Transfer.initial_isSound (heap : Nat → Value) (shared : List Nat) {input : Input}
    (empty : input.shared = #[]) : (Transfer.initial input).IsSound heap shared where
  mem_written storage := by simp [initial]
  distinct := List.nodup_nil
  size_eq := by simp [initial, empty]
  counted_of_number storage new numbered := by cases numbered
  number_lt storage new numbered := by cases numbered
  injective first second new numbered := by cases numbered
  remembered index storage new place := by simp [initial] at place

theorem Transfer.initial_isClosed (heap : Nat → Value) (input : Input) :
    (Transfer.initial input).IsClosed heap :=
  fun _ isOpen => absurd isOpen.1 List.not_mem_nil

/-- Two tables whose variables differ at most by the storages of their arrays. -/
theorem inLevelOrder_copies {number : Nat → Option Nat} {entries copies : List Variable}
    (copied : List.Forall₂ (Variable.IsCopy number) entries copies) :
    Variables.inLevelOrder copies = Variables.inLevelOrder entries := by
  induction copied with
  | nil => rfl
  | cons first rest ih =>
      cases rest with
      | nil => rfl
      | cons second rest =>
          rw [Variables.inLevelOrder, Variables.inLevelOrder, ih, first.level, second.level]

/-- The stack, the last X and the variables of a machine, as copies with new numbers. -/
structure ValuesCopy (number : Nat → Option Nat) (machine : Machine) (stack : Stack) (lastX : Value)
    (bindings : Variables) : Prop where
  isBig : stack.isBig = machine.stack.isBig
  values : List.Forall₂ (Value.IsCopy number) machine.stack.values stack.values
  lastX : Value.IsCopy number machine.lastX lastX
  bindings : List.Forall₂ (Variable.IsCopy number) machine.bindings.entries bindings.entries

theorem ofValues_levels {machine : Machine} (storable : machine.IsStorable) {levels : List Value}
    (same : levels.length = machine.stack.depth) :
    Stack.ofValues machine.stack.isBig levels = ⟨machine.stack.isBig, levels⟩ := by
  cases isBig : machine.stack.isBig with
  | true => rfl
  | false =>
      have four : levels.length = Stack.fourLevels := same.trans (storable.fourLevels isBig)
      rw [Stack.ofValues, Stack.fitFour, four, List.take_of_length_le (Nat.le_of_eq four)]
      simp

/-- The values of a machine are written and read back in three parts. -/
theorem transmits_parts {machine : Machine} (storable : machine.IsStorable) (input : Input)
    (empty : input.shared = #[]) :
    ∃ first second third : Transfer, ∃ levels lastX entries stackBytes lastXBytes entryBytes,
      (∃ heap, third.IsSound heap (sharedStorages machine)) ∧
      List.Forall₂ (Value.IsCopy third.number) machine.stack.values.reverse levels ∧
      Value.IsCopy third.number machine.lastX lastX ∧
      List.Forall₂ (Variable.IsCopy third.number) machine.bindings.entries entries ∧
      (valueFields ⟨currentVersion, sharedStorages machine⟩ machine.stack.values.reverse).run [] =
        .ok (stackBytes, first.written) ∧
      (valueField ⟨currentVersion, sharedStorages machine⟩ machine.lastX).run first.written =
        .ok (lastXBytes, second.written) ∧
      (List.flatten <$> machine.bindings.entries.mapM
        (variableField ⟨currentVersion, sharedStorages machine⟩)).run second.written =
          .ok (entryBytes, third.written) ∧
      Takes (many (value ⟨currentVersion, false⟩) machine.stack.depth) stackBytes input first.input
        levels ∧
      Takes (value ⟨currentVersion, false⟩) lastXBytes first.input second.input lastX ∧
      Takes (many (variableEntry ⟨currentVersion, false⟩) machine.bindings.entries.length)
        entryBytes second.input third.input entries := by
  obtain ⟨heap, held⟩ := storable.held
  have few := storable.fewShared
  have mem_shared (storage : Nat) : storage ∈ sharedStorages machine ↔
      1 < (holdersOfAll [] (heldValues machine)).count storage := mem_sharedStorages
  generalize isTotal : holdersOfAll [] (heldValues machine) = total at mem_shared
  have whole : total = holdersOfAll
      (holdersOf (holdersOfAll [] machine.stack.values.reverse) machine.lastX)
      (machine.bindings.entries.map Variable.value) := by
    rw [← isTotal, heldValues, holdersOfAll_append]
    rfl
  have heldLevels : ∀ value ∈ machine.stack.values.reverse, value.IsHeldIn heap :=
    fun value member => held value (List.mem_append_left _ member)
  have heldEntries : ∀ entry ∈ machine.bindings.entries, entry.value.IsHeldIn heap := by
    intro entry member
    refine held _ (List.mem_append_right _ (List.mem_cons_of_mem _ ?_))
    exact List.mem_map_of_mem member
  have suffixEntries := suffix_holdersOfAll
    (holdersOf (holdersOfAll [] machine.stack.values.reverse) machine.lastX)
    (machine.bindings.entries.map Variable.value)
  have suffixLastX := suffix_holdersOf (holdersOfAll [] machine.stack.values.reverse) machine.lastX
  rw [← whole] at suffixEntries
  -- The stack from its bottom, the last X, and the variables.
  obtain ⟨first, levels, countedFirst, soundFirst, leadsFirst, copiedLevels, stackBytes,
    writtenLevels, takesLevels⟩ := transmits_levels mem_shared few
      (Transfer.initial_isSound heap _ empty)
      (Transfer.initial_isClosed heap input) heldLevels (suffixLastX.trans suffixEntries)
  have closedFirst := leadsFirst.isClosed (Transfer.initial_isClosed heap input)
  change first.counted = holdersOfAll [] machine.stack.values.reverse at countedFirst
  rw [← countedFirst] at suffixEntries whole
  obtain ⟨second, lastX, countedSecond, soundSecond, leadsSecond, copiedLastX, lastXBytes,
    writtenLastX, takesLastX⟩ := transmits_level mem_shared few soundFirst closedFirst
      (held machine.lastX (by simp [heldValues])) suffixEntries
  have closedSecond := leadsSecond.isClosed closedFirst
  rw [← countedSecond] at whole
  obtain ⟨third, entries, -, soundThird, leadsThird, copiedEntries, entryBytes, writtenEntries,
    takesEntries⟩ := transmits_variables mem_shared few storable.bindings soundSecond closedSecond
      heldEntries (whole ▸ List.suffix_rfl)
  have keptFirst := (leadsSecond.trans leadsThird).number_mono soundFirst
  have keptSecond := leadsThird.number_mono soundSecond
  rw [List.length_reverse] at takesLevels
  exact ⟨first, second, third, levels, lastX, entries, stackBytes, lastXBytes, entryBytes,
    ⟨heap, soundThird⟩, copiedLevels.imp fun _ _ copied => copied.mono keptFirst,
    copiedLastX.mono keptSecond, copiedEntries, writtenLevels, writtenLastX, writtenEntries,
    takesLevels _ (Nat.lt_succ_self _), takesLastX _ (Nat.lt_succ_self _),
    takesEntries _ (Nat.lt_succ_self _)⟩

/-- The stack, the last X, the flags and the variables of a machine are read back in front of whatever
is read next. -/
theorem transmits_registers {machine : Machine} (storable : machine.IsStorable) (input : Input)
    (empty : input.shared = #[]) :
    ∃ later : Transfer, ∃ stack lastX bindings written remembered,
      (∃ heap, later.IsSound heap (sharedStorages machine)) ∧
      ValuesCopy later.number machine stack lastX bindings ∧
      (valuesFields ⟨currentVersion, sharedStorages machine⟩ machine).run [] =
        .ok (written, remembered) ∧
      ∀ {α : Type} (next : Stack → Value → Bytes → Flags → Variables → Reader α) rest after result,
        Takes (next stack lastX machine.alpha machine.flags bindings) rest later.input after
            result →
          Takes (do
            let stack ← Reader.stack ⟨currentVersion, false⟩
            let lastX ← value ⟨currentVersion, false⟩
            let alpha ← Reader.alpha
            let flags ← Reader.flags
            let bindings ←
              sound (Variables.ofList (← counted (variableEntry ⟨currentVersion, false⟩)))
            next stack lastX alpha flags bindings) (written ++ rest) input after result := by
  obtain ⟨first, second, third, levels, lastX, entries, stackBytes, lastXBytes, entryBytes,
    soundThird, copiedLevels, copiedLastX, copiedEntries, writtenLevels, writtenLastX,
    writtenEntries, takesLevels, takesLastX, takesEntries⟩ := transmits_parts storable input empty
  obtain ⟨alpha, writtenAlpha, readsAlpha⟩ := keeps_alpha storable.alpha
  have length : levels.reverse.length = machine.stack.depth := by
    rw [List.length_reverse, ← copiedLevels.length_eq, List.length_reverse]
    rfl
  refine ⟨third, ⟨machine.stack.isBig, levels.reverse⟩, lastX, ⟨entries⟩,
    (flagField machine.stack.isBig ++ (word32Field machine.stack.depth ++ stackBytes)) ++
      (lastXBytes ++ (alpha ++
        ((machine.flags.toList.length.toUInt8 :: machine.flags.toList.flatMap flagField) ++
          (word32Field machine.bindings.entries.length ++ entryBytes)))),
    third.written, soundThird,
    ⟨rfl, ?_, copiedLastX, copiedEntries⟩, ?_, ?_⟩
  · have reversed := List.rel_reverse copiedLevels
    rwa [List.reverse_reverse] at reversed
  · have writtenDepth : countField machine.stack.values.length =
        .ok (word32Field machine.stack.depth) :=
      countField_eq storable.depth
    obtain ⟨parts, writtenParts, flat⟩ := run_of_run_flatten writtenEntries
    simp [valuesFields, heldLevels, heldVariables, writtenDepth, writtenLevels, writtenLastX,
      writtenAlpha, countField_eq storable.variableCount, writtenParts, flat]
  · intro α next rest after result takes
    have isTable : Variables.ofList entries = .ok ⟨entries⟩ := by
      rw [Variables.ofList, inLevelOrder_copies copiedEntries, storable.levelOrder]
      rfl
    have admitted : (machine.stack.isBig || machine.stack.depth == Stack.fourLevels) = true := by
      cases isBig : machine.stack.isBig with
      | true => rfl
      | false => simp [storable.fourLevels isBig]
    have takesStack : Takes (Reader.stack ⟨currentVersion, false⟩)
        (flagField machine.stack.isBig ++ (word32Field machine.stack.depth ++ stackBytes)) input
          first.input ⟨machine.stack.isBig, levels.reverse⟩ := by
      refine (reads_flag machine.stack.isBig _).bind ((reads_word32 storable.depth _).bind ?_)
      refine (reads_require admitted _).before (takesLevels.then ?_)
      rw [ofValues_levels storable length]
      exact Takes.pure _ _
    have takesEntriesCounted : Takes (counted (variableEntry ⟨currentVersion, false⟩))
        (word32Field machine.bindings.entries.length ++ entryBytes) second.input third.input
          entries :=
      (reads_word32 storable.variableCount _).bind takesEntries
    rw [List.append_assoc (flagField _ ++ _), List.append_assoc lastXBytes, List.append_assoc alpha,
      List.append_assoc (_ :: _)]
    refine takesStack.bind (takesLastX.bind ((readsAlpha _).bind
      ((reads_flags machine.flags _).bind ?_)))
    exact takesEntriesCounted.bind ((reads_sound isTable _).before takes)

end StateFile

end Keystroke
