import Mathlib
import Keystroke.Proofs.Calls.Performing
import Keystroke.Proofs.Calls.Restored
import Keystroke.Proofs.StateFile.OlderLayouts

/-!
# Reloading a machine

A machine that was saved in any layout and is loaded again is in calls that fit it. A layout without levels
has no place for what calls keep, and none in its frames to say that they keep something.
-/

namespace Keystroke

open StateFile Reader
open Variable (globalLevel)
open Machine (keptMarks)

namespace Calls

/-- The name, the level and the marks of a variable. -/
def heading (entry : Variable) : (List UInt8 × Int) × UInt8 := (entry.key, entry.marks)

/-- Headings have the keys. -/
theorem map_key_of_heading {kept others : List Variable}
    (headings : others.map heading = kept.map heading) :
    others.map Variable.key = kept.map Variable.key := by
  have same := congrArg (List.map Prod.fst) headings
  rwa [List.map_map, List.map_map] at same

variable {calls : Calls} {bound : Nat}

/-- Calls that keep other values under the same names, at the same levels and with the same marks. -/
theorem IsStored.of_heading (stored : calls.IsStored bound) {others : Calls} {next : Nat}
    (limit : others.returns.limit = maximalReturns)
    (overflow : others.returns.overflow = .returnStackFull)
    (deep : others.returns.depth = calls.returns.depth)
    (headings : others.kept.map heading = calls.kept.map heading)
    (values : ∀ entry ∈ others.kept, entry.value.IsKept (others.free next) entry.name)
    (taken : others.taken.Nodup) : others.IsStored next := by
  have original {entry : Variable} (member : entry ∈ others.kept) :
      ∃ other ∈ calls.kept, heading other = heading entry := by
    have isHeading : heading entry ∈ calls.kept.map heading := headings ▸ List.mem_map_of_mem member
    exact List.mem_map.mp isHeading
  refine
    { limit, overflow, values, taken
      depth := deep.trans_le stored.depth
      marked := fun entry member => ?_
      levels := fun entry member => ?_
      keys := map_key_of_heading headings ▸ stored.keys }
  · obtain ⟨other, isKept, same⟩ := original member
    exact (congrArg Prod.snd same).symm.trans (stored.marked other isKept)
  · obtain ⟨other, isKept, same⟩ := original member
    have level : other.level = entry.level := congrArg (fun heading => heading.1.2) same
    rw [← level, deep]
    exact stored.levels other isKept

end Calls

/-- The calls of a machine that keeps things under some names. -/
def Machine.callsWith (names : List (List UInt8)) (machine : Machine) : Calls where
  returns := machine.returns
  kept := machine.bindings.entries.filter (Variable.isKept names)
  names := names
  solver := machine.solver
  integrator := machine.integrator
  errors := machine.errors

namespace StateFile

open Calls (heading)

variable {version : Nat} {calls : Calls} {machine : Machine}

/-- A file holds what calls keep if its layout has levels. -/
theorem isKept_held (stored : calls.IsStored machine.nextStorage) (settled : machine.IsSettled calls 0)
    {entry : Variable} (held : entry ∈ heldVariables version machine.bindings)
    (kept : entry.isKept calls.names = true) : holdsLevels version = true := by
  by_contra levels
  rw [heldVariables, if_neg levels, List.mem_filter] at held
  have isKept : entry ∈ calls.kept := by
    rw [← settled.bindings.kept]
    exact List.mem_filter.mpr ⟨held.1, kept⟩
  have notPrivate : entry.has Variable.privateMark = false := by simpa using held.2
  rw [Variable.has, stored.marked entry isKept] at notPrivate
  exact absurd notPrivate (by decide)

theorem isRestorable_held (stored : calls.IsStored machine.nextStorage)
    (settled : machine.IsSettled calls 0) {entry : Variable}
    (held : entry ∈ heldVariables version machine.bindings) :
    IsRestorable calls.names version (sharedStorages machine) (calls.free machine.nextStorage)
      entry := by
  have member := (heldVariables_sublist version machine.bindings).mem held
  obtain ⟨low, high⟩ := settled.bindings.levels entry member
  have inCalls (kept : entry.isKept calls.names = true) : entry ∈ calls.kept := by
    rw [← settled.bindings.kept]
    exact List.mem_filter.mpr ⟨member, kept⟩
  refine ⟨low, high.trans ?_, ?_, fun kept => ⟨isKept_held stored settled held kept, ?_⟩⟩
  · rw [Machine.level, settled.returns]
    exact_mod_cast stored.depth
  · rw [Variable.IsSettled]
    split
    · next kept => exact stored.values entry (inCalls kept)
    · next unreserved =>
        exact settled.bindings.fits entry member (Variable.isKept_eq_false.mp (by simpa using unreserved))
  · intro number isOwn
    exact not_mem_sharedStorages stored settled (List.mem_flatMap.mpr ⟨entry, inCalls kept, isOwn⟩)

/-- What calls keep comes back at its levels, with its marks. -/
theorem map_heading_filter (names : List (List UInt8)) (levels : holdsLevels version = true)
    {entries read : List Variable} (comesBack : List.Forall₂ (ComesBack version) entries read) :
    (read.filter (Variable.isKept names)).map heading =
      (entries.filter (Variable.isKept names)).map heading := by
  induction comesBack with
  | nil => rfl
  | @cons entry result entries read comesBack rest ih =>
      have same : heading result = heading entry := by
        rw [heading, heading, Variable.key, Variable.key, comesBack.name, comesBack.level, comesBack.marks,
          Variable.inLayout, levels]
        rfl
      rw [List.filter_cons, List.filter_cons, comesBack.isKept]
      split
      · rw [List.map_cons, List.map_cons, same, ih]
      · exact ih

/-! ## A restored machine -/

/-- The stack, the last X and the variables that are read of a machine. -/
structure RegistersComeBack (names : List (List UInt8)) (version : Nat) (machine : Machine)
    (own : List Nat) (next : Nat) (stack : Stack) (lastX : Value) (bindings : Variables) : Prop where
  new : AreNew 0 next own
  stack : stack.Fits (IsFree own next)
  lastX : lastX.Fits (IsFree own next)
  ordered : Variables.inLevelOrder bindings.entries = true
  table : List.Forall₂ (ComesBack version) (heldVariables version machine.bindings) bindings.entries
  isOwn : own = Variables.ownStorages names bindings.entries
  settled : ∀ entry ∈ bindings.entries, entry.IsSettled names (IsFree own next)

/-- What is read of a machine that was written in a layout, as far as its calls depend on it. -/
structure IsRestored (names : List (List UInt8)) (version : Nat) (machine result : Machine) :
    Prop where
  registers : ∃ own, RegistersComeBack names version machine own result.nextStorage result.stack
    result.lastX result.bindings
  returns : FramesComeBack version machine.returns result.returns
  editor : ∀ editor ∈ result.editor, ∃ original ∈ machine.editor, editor.name = original.name
  solver : SolverComesBack machine.solver result.solver
  integrator : IntegratorComesBack machine.integrator result.integrator
  programs : result.library.count = machine.library.count
  keys : result.keys.keys.length ≤ KeyQueue.capacity
  errors : result.errors = []
  memory : result.memory ≤ Grid.sizeLimit

namespace IsRestored

variable {result : Machine} (restored : IsRestored calls.names version machine result)
  (stored : calls.IsStored machine.nextStorage) (settled : machine.IsSettled calls 0)

include restored

theorem free_callsWith : ∃ own, RegistersComeBack calls.names version machine own result.nextStorage
      result.stack result.lastX result.bindings ∧
    Calls.taken (result.callsWith calls.names) = own ∧
    (result.callsWith calls.names).free result.nextStorage = IsFree own result.nextStorage := by
  obtain ⟨own, registers⟩ := restored.registers
  have taken : Calls.taken (result.callsWith calls.names) = own := registers.isOwn.symm
  exact ⟨own, registers, taken, by rw [← taken]; rfl⟩

include settled

/-- With levels, all that calls keep comes back. -/
theorem headings (levels : holdsLevels version = true) :
    (result.callsWith calls.names).kept.map heading = calls.kept.map heading := by
  obtain ⟨own, registers⟩ := restored.registers
  have same := map_heading_filter calls.names levels registers.table
  rwa [heldVariables, if_pos levels, settled.bindings.kept] at same

include stored

/-- Without levels, nothing that calls keep comes back. -/
theorem kept_eq_nil (levels : holdsLevels version = false) :
    (result.callsWith calls.names).kept = [] := by
  obtain ⟨own, registers⟩ := restored.registers
  refine List.filter_eq_nil_iff.mpr fun entry member kept => ?_
  obtain ⟨original, held, comesBack⟩ := exists_of_forall₂ registers.table member
  rw [comesBack.isKept] at kept
  exact Bool.noConfusion (levels.symm.trans (isKept_held stored settled held kept))

theorem isStored : (result.callsWith calls.names).IsStored result.nextStorage := by
  obtain ⟨own, registers, taken, free⟩ := restored.free_callsWith
  have values : ∀ entry ∈ (result.callsWith calls.names).kept,
      entry.value.IsKept ((result.callsWith calls.names).free result.nextStorage) entry.name := by
    intro entry member
    obtain ⟨member, kept⟩ := List.mem_filter.mp member
    have settled := registers.settled entry member
    rw [Variable.IsSettled, if_pos kept] at settled
    rwa [free]
  cases levels : holdsLevels version with
  | true =>
      have deep : result.returns.depth = calls.returns.depth := by
        rw [← settled.returns]
        exact restored.returns.frames.length_eq.symm
      exact stored.of_heading restored.returns.limit restored.returns.overflow deep
        (restored.headings settled levels) values (taken.symm ▸ registers.new.distinct)
  | false =>
      exact Calls.isStored_nil (restored.kept_eq_nil stored settled levels) restored.returns.limit
        restored.returns.overflow restored.returns.depth _

omit stored

theorem isSettled : result.IsSettled (result.callsWith calls.names) 0 := by
  obtain ⟨own, registers, taken, free⟩ := restored.free_callsWith
  have deep : machine.level = result.level := congrArg Nat.cast restored.returns.frames.length_eq
  refine
    { returns := rfl
      bindings := ⟨Variables.inLevelOrder_iff.mp registers.ordered, fun entry member => ?_, rfl,
        fun entry member unreserved => ?_⟩
      stack := free ▸ registers.stack
      lastX := free ▸ registers.lastX
      floor := Nat.zero_le _
      taken := fun number member => (registers.new.given number (taken ▸ member)).2
      editor := fun editor member => ?_
      registers := settled.registers
      solver := rfl
      integrator := rfl
      keys := restored.keys
      errors := rfl
      memory := restored.memory }
  · obtain ⟨original, held, comesBack⟩ := exists_of_forall₂ registers.table member
    obtain ⟨low, high⟩ := settled.bindings.levels original
      ((heldVariables_sublist version machine.bindings).mem held)
    rw [comesBack.level, Variable.inLayout]
    dsimp only
    split
    · exact ⟨low, high.trans_eq deep⟩
    · exact ⟨le_rfl, Machine.IsSettled.globalLevel_le result⟩
  · have fits := registers.settled entry member
    have notKept : ¬ entry.isKept calls.names = true := by
      rw [Bool.not_eq_true]
      exact Variable.isKept_eq_false.mpr unreserved
    rw [Variable.IsSettled, if_neg notKept] at fits
    exact free ▸ fits
  · obtain ⟨original, isOriginal, same⟩ := restored.editor editor member
    exact same ▸ settled.editor original isOriginal

end IsRestored

/-! ## The sections of a file

Each is read in front of whatever is read next. -/

section

variable {α : Type} {cuts : Bool} {shape : Nat → Nat → Prop} {taken : List Nat} {bound : Nat} {rest : Bytes}
  {final : List Nat → Nat → α → Prop}

/-- Fields that are read in front of something else. -/
theorem Passing.restores_cons {β : Type} {field : Outcome Bytes} {parts : List (Outcome Bytes)}
    {reader : Reader β} {next : β → Reader α} {holding : β → Prop}
    (passing : Passing field reader holding)
    (restores : ∀ result, holding result → ∀ others, fields parts = .ok others →
      Restores shape taken bound (others ++ rest) (next result) final) {written : Bytes}
    (wrote : fields (field :: parts) = .ok written) :
    Restores shape taken bound (written ++ rest) (reader >>= next) final := by
  obtain ⟨first, others, wroteFirst, wroteOthers, rfl⟩ := fields_cons_eq_ok wrote
  rw [List.append_assoc]
  exact (passing first wroteFirst).andThen fun result holds => restores result holds others wroteOthers

theorem restores_nil {reader : Reader α} (restores : Restores shape taken bound rest reader final)
    {written : Bytes} (wrote : fields [] = .ok written) :
    Restores shape taken bound (written ++ rest) reader final := by
  cases wrote
  exact restores

theorem restores_input {written : Bytes}
    (wrote : fields [inputFields machine, optionalField (editorFields version) machine.editor,
      optionalField promptFields machine.prompt] = .ok written)
    {next : UInt8 → Option Task → Option String → Option Opcode → String → Option Editor →
      Option Prompt → Reader α}
    (restores : ∀ mode task entry pending digits editor prompt,
      (∀ result ∈ editor, ∃ original ∈ machine.editor, Editor.name result = original.name) →
        Restores shape taken bound rest (next mode task entry pending digits editor prompt) final) :
    Restores shape taken bound (written ++ rest) (do
      let mode ← byte
      let task ← task
      let entry ← optional shortText
      let pending ← pending
      let pendingDigits ← shortText
      let editor ← optional (editor version)
      let prompt ← optional prompt
      next mode task entry pending pendingDigits editor prompt) final := by
  obtain ⟨typed, others, wroteTyped, wroteOthers, rfl⟩ := fields_cons_eq_ok wrote
  rw [List.append_assoc]
  refine Passing.restores_cons (passing_ok (reads_byte _).passes) (fun _ _ _ wrote => ?_) wroteTyped
  refine (passing_task machine.task).restores_cons (fun _ _ _ wrote => ?_) wrote
  refine (passing_optional _ fun text _ => passing_shortText text).restores_cons
    (fun _ _ _ wrote => ?_) wrote
  refine (passing_ok (reads_pending machine.pending).passes).restores_cons (fun _ _ _ wrote => ?_) wrote
  refine (passing_shortText _).restores_cons (fun _ _ _ wrote => restores_nil ?_ wrote) wrote
  refine (passing_optional _ fun editor _ => passing_editor version editor).restores_cons
    (fun read related _ wrote => ?_) wroteOthers
  refine (passing_optional _ fun prompt _ => passing_prompt prompt).restores_cons
    (fun _ _ _ wrote => restores_nil (restores _ _ _ _ _ _ _ ?_) wrote) wrote
  rintro result isRead
  obtain rfl : read = some result := isRead
  generalize machine.editor = editor at related
  cases related with
  | some same => exact ⟨_, rfl, same⟩

theorem restores_devices (fits : machine.keys.keys.length ≤ KeyQueue.capacity)
    {next : Nat → Generator → Bool → KeyQueue → Display → Reader α}
    (restores : ∀ lastError generator printsOnStop display,
      Restores shape taken bound rest (next lastError generator printsOnStop machine.keys display) final) :
    Restores shape taken bound (deviceFields version machine ++ rest) (do
      let lastError ← word 2
      let generator ← generator version
      let printsOnStop ← flag
      let keys ← keys
      let display ← sound (Display.ofBytes (← bytes Display.blank.toList.length))
      next lastError generator printsOnStop keys display) final := by
  have readsDisplay := reads_bytes machine.display.toList
  rw [toList_length] at readsDisplay
  rw [deviceFields, List.append_assoc, List.append_assoc, List.append_assoc, List.append_assoc]
  refine (passes_word 2 _).andThen fun _ _ => (reads_generator version _).passes.andThen fun _ _ => ?_
  refine (reads_flag _).passes.andThen fun _ _ => (reads_keys fits).passes.andThen ?_
  rintro _ rfl
  refine readsDisplay.passes.andThen fun read _ => ?_
  exact (passes_sound (Display.ofBytes read)).inFront fun _ _ => restores _ _ _ _

theorem restores_place {written : Bytes}
    (wrote : fields [countField machine.program, addressField machine.address] = .ok written)
    {next : Nat → Option Nat → Reader α}
    (restores : ∀ program address, Restores shape taken bound rest (next program address) final) :
    Restores shape taken bound (written ++ rest) (do
      let program ← word 4
      let address ← address
      next program address) final := by
  refine (passing_count machine.program).restores_cons (fun _ _ _ wrote => ?_) wrote
  exact (passing_address machine.address).restores_cons
    (fun _ _ _ wrote => restores_nil (restores _ _) wrote) wrote

theorem eq_ofPrograms_of_ofList {programs : List Program} {library : Library}
    (found : Library.ofList programs = .ok library) : library = .ofPrograms programs := by
  rw [Library.ofList] at found
  split at found
  · cases found
  · cases found
    rfl

theorem restores_control {written : Bytes}
    (wrote : fields [programFields version machine, solverFields machine.solver,
      integratorFields machine.integrator] = .ok written)
    {program : Nat} {address : Option Nat} {next : Library → Returns → Solver → Integrator → Reader α}
    (restores : ∀ library returns solver integrator, Library.count library = machine.library.count →
      FramesComeBack version machine.returns returns → SolverComesBack machine.solver solver →
      IntegratorComesBack machine.integrator integrator →
        Restores shape taken bound [] (next library returns solver integrator) final) :
    Restores shape taken bound written (do
      let library ← sound (Library.ofList (← counted Reader.program))
      require (isPlace library program address)
      let returns ← returns version library
      let solver ← solver
      let integrator ← integrator
      next library returns solver integrator) final := by
  obtain ⟨first, others, wroteFirst, wroteOthers, rfl⟩ := fields_cons_eq_ok wrote
  obtain ⟨programs, frames, wrotePrograms, wroteFrames, rfl⟩ := fields_append_eq_ok wroteFirst
  rw [List.append_assoc]
  have passingPrograms := passing_counted machine.library.programs fun program _ => passing_program program
  refine (passingPrograms _ wrotePrograms).andThen fun read related => ?_
  refine (passes_sound (Library.ofList read)).inFront fun library isLibrary => ?_
  obtain rfl := eq_ofPrograms_of_ofList isLibrary
  refine (passes_require _).inFront fun _ _ => ?_
  refine (passing_returns version _ machine.returns frames wroteFrames).andThen
    fun returns comesBack => ?_
  have solver : Restores shape taken bound (others ++ []) (do
      let solver ← Reader.solver
      let integrator ← Reader.integrator
      next (.ofPrograms read) returns solver integrator) final :=
    (passing_solver machine.solver).restores_cons (fun solver sameSolver _ wrote =>
      (passing_integrator machine.integrator).restores_cons (fun integrator sameIntegrator _ wrote =>
        restores_nil (restores (.ofPrograms read) returns solver integrator related.length_eq.symm comesBack
          sameSolver sameIntegrator) wrote) wrote) wroteOthers
  rwa [List.append_nil] at solver

theorem restores_stack {free : Nat → Prop} {values : List Value} {written later : List Nat}
    {depth levels : Bytes} (narrow : ∀ rows cols, 0 < rows → shape rows cols → Grid.IsNarrow rows cols)
    (within : ∀ value ∈ values, value.Within shape free)
    (wroteDepth : countField values.length = .ok depth)
    (wroteLevels : (valueFields ⟨version, sharedStorages machine⟩ values.reverse).run written =
      .ok (levels, later)) :
    Restores shape taken bound
      ((if holdsSharing version then flagField machine.stack.isBig else []) ++ (depth ++ levels))
      (Reader.stack ⟨version, cuts⟩) fun own next stack => own = [] ∧ stack.Within shape (IsFree taken next) := by
  have restoresLevels (isBig : Bool) : Restores shape taken bound (depth ++ levels) (do
      let depth ← word 4
      require (isBig || depth == Stack.fourLevels)
      return Stack.ofValues isBig (← many (value ⟨version, cuts⟩) depth).reverse)
      fun own next stack => own = [] ∧ stack.Within shape (IsFree taken next) := by
    refine (passing_count _ _ wroteDepth).andThen ?_
    rintro _ rfl
    refine (passes_require _).inFront fun _ _ => ?_
    have tracks : ∀ value ∈ values.reverse, ∀ bound, Tracks shape taken bound
        (valueField ⟨version, sharedStorages machine⟩ value) (fun _ => Reader.value ⟨version, cuts⟩)
        (IsOrdinary shape taken) := fun value member _ =>
      (tracks_value narrow value (within value (List.mem_reverse.mp member))).read
    have tracksAll : Tracks shape taken bound _ _ _ := tracks_ordinary_items tracks
    have restores := tracksAll _ _ _ wroteLevels 0
    rw [List.length_reverse] at restores
    refine restores.map ?_
    rintro own next results ⟨rfl, -, fitResults⟩
    exact ⟨rfl, Stack.Within.ofValues (fun value member => fitResults value (List.mem_reverse.mp member)) _⟩
  rw [Reader.stack]
  cases holdsSharing version with
  | true =>
      refine (reads_flag machine.stack.isBig).passes.andThen ?_
      rintro _ rfl
      exact restoresLevels _
  | false => exact restoresLevels false

theorem restores_table (stored : calls.IsStored machine.nextStorage)
    (settled : machine.IsSettled calls 0) {count : Bytes} {entries : List Bytes} {written later : List Nat}
    (wroteCount : countField (heldVariables version machine.bindings).length = .ok count)
    (wroteEntries : ((heldVariables version machine.bindings).mapM
      (variableField ⟨version, sharedStorages machine⟩)).run written = .ok (entries, later)) :
    Restores Grid.IsSmall taken bound (count ++ entries.flatten) (counted (variableEntry ⟨version, cuts⟩))
      fun own next read => List.Forall₂ (ComesBack version) (heldVariables version machine.bindings) read ∧
        own = Variables.ownStorages calls.names read ∧
          ∀ entry ∈ read, entry.IsSettled calls.names (IsFree (taken ++ own) next) := by
  have wrote : (List.flatten <$> (heldVariables version machine.bindings).mapM
      (variableField ⟨version, sharedStorages machine⟩)).run written = .ok (entries.flatten, later) := by
    rw [StateT.run_map, wroteEntries]
    rfl
  refine (passing_count _ _ wroteCount).andThen ?_
  rintro _ rfl
  refine (tracks_variables [] (fun entry held => isRestorable_held stored settled held) _ _ _ wrote
    0).imp ?_
  rintro own next _ - ⟨read, rfl, comesBack, isOwn, settledRead⟩
  exact ⟨comesBack, isOwn, settledRead⟩

theorem ofList_eq_ok {entries : List Variable} {table : Variables}
    (isTable : Variables.ofList entries = .ok table) :
    Variables.inLevelOrder entries = true ∧ ⟨entries⟩ = table := by
  rw [Variables.ofList] at isTable
  split at isTable
  · next ordered =>
      cases isTable
      exact ⟨ordered, rfl⟩
  · cases isTable

theorem restores_registers (stored : calls.IsStored machine.nextStorage)
    (settled : machine.IsSettled calls 0) {written : Bytes} {later : List Nat}
    (wrote : (valuesFields ⟨version, sharedStorages machine⟩ machine).run [] = .ok (written, later))
    {next : Stack → Value → Bytes → Flags → Variables → Reader α} {property : Nat → α → Prop}
    (restores : ∀ own bound stack lastX alpha flags bindings,
      RegistersComeBack calls.names version machine own bound stack lastX bindings →
        Restores Grid.IsSmall own bound rest (next stack lastX alpha flags bindings) fun _ => property) :
    Restores Grid.IsSmall [] 0 (written ++ rest) (do
      let stack ← Reader.stack ⟨version, cuts⟩
      let lastX ← value ⟨version, cuts⟩
      let alpha ← Reader.alpha
      let flags ← Reader.flags
      let bindings ← sound (Variables.ofList (← counted (variableEntry ⟨version, cuts⟩)))
      next stack lastX alpha flags bindings) fun _ => property := by
  obtain ⟨depth, afterDepth, wroteDepth, wrote⟩ := run_bind_eq_ok.mp wrote
  obtain ⟨levels, afterLevels, wroteLevels, wrote⟩ := run_bind_eq_ok.mp wrote
  obtain ⟨lastX, afterLastX, wroteLastX, wrote⟩ := run_bind_eq_ok.mp wrote
  obtain ⟨alpha, afterAlpha, wroteAlpha, wrote⟩ := run_bind_eq_ok.mp wrote
  obtain ⟨count, afterCount, wroteCount, wrote⟩ := run_bind_eq_ok.mp wrote
  obtain ⟨entries, afterEntries, wroteEntries, same⟩ := run_bind_eq_ok.mp wrote
  obtain ⟨rfl, -⟩ := run_pure_eq_ok.mp same
  have fitLevels : ∀ value ∈ heldLevels version machine.stack,
      value.Fits (calls.free machine.nextStorage) := by
    rw [heldLevels]
    split
    · exact settled.stack
    · exact Stack.Within.ofValues settled.stack false
  have restoresStack : Restores Grid.IsSmall [] 0 _ (Reader.stack ⟨version, cuts⟩) _ :=
    restores_stack Grid.isNarrow_of_isSmall fitLevels (run_lift_eq_ok.mp wroteDepth).1 wroteLevels
  simp only [List.append_assoc]
  rw [← List.append_assoc depth, ← List.append_assoc (ite _ _ _)]
  refine restoresStack.bind ?_
  rintro _ boundStack stack newStack ⟨rfl, fitStack⟩
  refine Restores.bind
    ((tracks_value Grid.isNarrow_of_isSmall machine.lastX settled.lastX).read _ _ _ wroteLastX 0) ?_
  rintro _ boundLastX lastX newLastX ⟨rfl, fitsLastX⟩
  refine (passing_alpha machine.alpha _ (run_lift_eq_ok.mp wroteAlpha).1).andThen fun alpha _ => ?_
  refine (reads_flags machine.flags).passes.andThen fun flags _ => ?_
  rw [← List.append_assoc]
  refine Restores.bind (restores_table stored settled (run_lift_eq_ok.mp wroteCount).1 wroteEntries) ?_
  rintro own bound table newTable ⟨comesBack, isOwn, settledTable⟩
  refine (passes_sound (Variables.ofList table)).inFront fun _ isTable => ?_
  obtain ⟨ordered, rfl⟩ := ofList_eq_ok isTable
  have freeStack {value : Value} (fits : value.Fits (IsFree [] boundStack)) :
      value.Fits (IsFree own bound) := by
    have fitsLater : value.Fits (IsFree [] boundLastX) := fits.imp fun _ isFree =>
      isFree.later newLastX.le
    exact newTable.fits fitsLater
  have freeLastX : lastX.Fits (IsFree own bound) := newTable.fits fitsLastX
  exact restores own bound stack lastX alpha flags ⟨table⟩
    { new := (newStack.append newLastX).append newTable
      stack := fun value member => freeStack (fitStack value member)
      lastX := freeLastX
      ordered := ordered
      table := comesBack
      isOwn := isOwn
      settled := settledTable }

end

/-! ## The whole file -/

section

variable {cuts : Bool}

theorem restores_body (stored : calls.IsStored machine.nextStorage) (settled : machine.IsSettled calls 0)
    {input place values control : Bytes} {later : List Nat}
    (wroteInput : fields [inputFields machine, optionalField (editorFields version) machine.editor,
      optionalField promptFields machine.prompt] = .ok input)
    (wrotePlace : fields [countField machine.program, addressField machine.address] = .ok place)
    (wroteValues : (valuesFields ⟨version, sharedStorages machine⟩ machine).run [] = .ok (values, later))
    (wroteControl : fields [programFields version machine, solverFields machine.solver,
      integratorFields machine.integrator] = .ok control) :
    Restores Grid.IsSmall [] 0 (input ++ (deviceFields version machine ++ (place ++ (values ++ control))))
      (body ⟨version, cuts⟩) fun _ _ => IsRestored calls.names version machine := by
  refine restores_input wroteInput fun _ _ _ _ _ editor _ editors => ?_
  refine restores_devices settled.keys fun _ _ _ _ => restores_place wrotePlace fun _ _ => ?_
  refine restores_registers stored settled wroteValues fun own bound _ _ _ _ _ registers => ?_
  refine restores_control wroteControl fun _ _ _ _ programs frames solver integrator => ?_
  intro before rest result after holds atBound run
  cases run
  refine ⟨rfl, [], atBound ▸ .nil _, ?_, ⟨⟨own, ?_⟩, frames, editors, solver, integrator, programs,
    settled.keys, rfl, le_rfl⟩⟩
  · rw [List.append_nil]
    exact holds.withBytes rest
  · exact atBound ▸ registers

theorem write_eq_ok {platform : String} {bytes : Bytes} (wrote : write version platform machine = .ok bytes) :
    version ≤ currentVersion ∧ ∃ input place values later control,
      fields [inputFields machine, optionalField (editorFields version) machine.editor,
        optionalField promptFields machine.prompt] = .ok input ∧
      fields [countField machine.program, addressField machine.address] = .ok place ∧
      (valuesFields ⟨version, sharedStorages machine⟩ machine).run [] = .ok (values, later) ∧
      fields [programFields version machine, solverFields machine.solver,
        integratorFields machine.integrator] = .ok control ∧
      bytes = StateFile.signature version ++ (platformField platform ++ (binaryNumbers ::
        ((input ++ (deviceFields version machine ++ (place ++ (values ++ control)))) ++
          StateFile.signature version))) := by
  rw [write] at wrote
  by_cases known : version < oldestVersion ∨ currentVersion < version
  · rw [if_pos known] at wrote
    cases wrote
  · rw [if_neg known] at wrote
    obtain ⟨-, -, wrote⟩ := bind_eq_ok.mp wrote
    obtain ⟨input, wroteInput, wrote⟩ := bind_eq_ok.mp wrote
    obtain ⟨place, wrotePlace, wrote⟩ := bind_eq_ok.mp wrote
    obtain ⟨⟨values, later⟩, wroteValues, wrote⟩ := bind_eq_ok.mp wrote
    obtain ⟨control, wroteControl, same⟩ := bind_eq_ok.mp wrote
    refine ⟨by omega, input, place, values, later, control, wroteInput, wrotePlace, wroteValues,
      wroteControl, ?_⟩
    cases same
    simp only [List.append_assoc, List.cons_append, List.nil_append]

/-- What is read of a file is what its body comes to, with an editor that was checked. -/
theorem restores_file_of_body {shape : Nat → Nat → Prop} {bound : Nat} {property : Machine → Prop}
    {platform : String} {bytes : Bytes}
    (wrote : write version platform machine = .ok bytes)
    (restores : ∀ {input place values control : Bytes} {later : List Nat},
      fields [inputFields machine, optionalField (editorFields version) machine.editor,
        optionalField promptFields machine.prompt] = .ok input →
      fields [countField machine.program, addressField machine.address] = .ok place →
      (valuesFields ⟨version, sharedStorages machine⟩ machine).run [] = .ok (values, later) →
      fields [programFields version machine, solverFields machine.solver,
        integratorFields machine.integrator] = .ok control →
      Restores shape [] bound (input ++ (deviceFields version machine ++ (place ++ (values ++ control))))
        (body ⟨version, cuts⟩) fun _ _ => property) :
    Restores shape [] bound bytes (file ⟨version, cuts⟩) fun _ _ result =>
      ∃ restored, property restored ∧ restored.checkEditor = result := by
  obtain ⟨-, input, place, values, later, control, wroteInput, wrotePlace, wroteValues, wroteControl,
    rfl⟩ := write_eq_ok wrote
  refine (passes_signature version).andThen fun _ _ => (passes_require _).inFront fun _ _ => ?_
  refine (passes_platform platform).andThen fun _ _ => (reads_byte binaryNumbers).passes.andThen ?_
  rintro _ rfl
  refine (passes_require _).inFront fun _ _ => ?_
  refine Restores.bind (restores wroteInput wrotePlace wroteValues wroteControl) ?_
  rintro own next result - restored
  exact (passes_signature version).restores.map fun _ _ _ _ => ⟨result, restored, rfl⟩

/-- A file is read as the machine that was written, with an editor that was checked. -/
theorem restores_file (stored : calls.IsStored machine.nextStorage) (settled : machine.IsSettled calls 0)
    {platform : String} {bytes : Bytes} (wrote : write version platform machine = .ok bytes) :
    Restores Grid.IsSmall [] 0 bytes (file ⟨version, cuts⟩) fun _ _ result =>
      ∃ restored, IsRestored calls.names version machine restored ∧ restored.checkEditor = result :=
  restores_file_of_body wrote (restores_body stored settled)

/-- The machine that is read of a file, if one is. -/
theorem exists_restored_of_read? (stored : calls.IsStored machine.nextStorage)
    (settled : machine.IsSettled calls 0) {platform : String} {bytes : Bytes}
    (wrote : write version platform machine = .ok bytes) {result : Machine}
    (found : read? version bytes = some result) :
    ∃ restored, IsRestored calls.names version machine restored ∧ restored.checkEditor = result := by
  have isRead {cuts : Bool} {after : Input}
      (run : (file ⟨version, cuts⟩).run { bytes } = .ok (result, after)) :
      ∃ restored, IsRestored calls.names version machine restored ∧ restored.checkEditor = result := by
    have restores : Restores Grid.IsSmall [] 0 bytes (file ⟨version, cuts⟩) _ := restores_file stored settled wrote
    rw [← List.append_nil bytes] at run
    obtain ⟨-, -, -, -, restored⟩ := restores { bytes := [] } [] result after
      ⟨fun _ member => absurd member List.not_mem_nil, fun _ member => absurd member (by simp)⟩ rfl run
    exact restored
  rw [read?] at found
  split at found
  · next run =>
      obtain rfl := Option.some.inj found
      exact isRead run
  · obtain ⟨⟨_, after⟩, found, rfl⟩ := Option.map_eq_some_iff.mp found
    cases run : (file ⟨version, true⟩).run { bytes } with
    | error damage =>
        rw [run] at found
        cases found
    | ok pair =>
        rw [run] at found
        cases found
        exact isRead run
  · cases found

/-- A machine that was saved in any layout obeys a law when it is loaded, by itself or another, if what
comes back of it does. -/
theorem obeys_load {law : Calls → Nat → Prop} [Calls.Law law] [Calls.Maintained law]
    (stored : calls.IsStored machine.nextStorage) (settled : machine.IsSettled calls 0)
    (keeps : ∀ result, IsRestored calls.names version machine result → result.Obeys law)
    {platform : String} {bytes : Bytes} (wrote : write version platform machine = .ok bytes)
    (generator : Generator) {old : Machine} (obeysOld : old.Obeys law) :
    (load version bytes generator old).2.Obeys law := by
  rw [load, if_neg (Nat.not_lt.mpr (write_eq_ok wrote).1)]
  split
  · next result found =>
      obtain ⟨restored, isRestored, rfl⟩ := exists_restored_of_read? stored settled wrote found
      obtain ⟨callsOld, -, settledOld⟩ := obeysOld
      exact (keeps restored isRestored).checkEditor.change
        (fun _ settled => { settled with memory := settledOld.memory }) le_rfl
  · exact obeysOld.reset generator

end

end StateFile

namespace Machine

/-- A machine that is saved in a layout and loaded by another one, which stays as it is if the layout has
no place for the first. -/
def reloadedBy (version : Nat) (platform : String) (generator : Generator) (machine other : Machine) :
    Machine :=
  match StateFile.write version platform machine with
  | .ok bytes => (StateFile.load version bytes generator other).2
  | .error _ => other

/-- A law that is obeyed by whatever comes back of a machine is obeyed after a reload. -/
theorem obeys_reloadedBy {law : Calls → Nat → Prop} [Calls.Law law] [Calls.Maintained law]
    {machine other : Machine} {calls : Calls} {version : Nat}
    (stored : calls.IsStored machine.nextStorage) (settled : machine.IsSettled calls 0)
    (keeps : ∀ result, StateFile.IsRestored calls.names version machine result → result.Obeys law)
    (obeysOther : other.Obeys law) (platform : String) (generator : Generator) :
    (machine.reloadedBy version platform generator other).Obeys law := by
  rw [reloadedBy]
  split
  · next bytes wrote => exact StateFile.obeys_load stored settled keeps wrote generator obeysOther
  · exact obeysOther

end Machine

end Keystroke
