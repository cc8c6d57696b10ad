import Mathlib
import Keystroke.Proofs.ProgramText
import Keystroke.Proofs.StateFile.Registers

/-!
# State files are read back

A machine that was written in the newest layout is read back in everything that a state file holds. Its
arrays come back with new storages, and two of them share one if and only if they did before.
-/

namespace Keystroke

/-! ## What a state file holds -/

mutual

/-- A value whose arrays are in other storages. Which storage an empty list is in makes no difference
to it. -/
def Value.renumbered (number : Nat → Nat) : Value → Value
  | .realMatrix storage grid => .realMatrix (storage.map number) grid
  | .complexMatrix storage grid => .complexMatrix (storage.map number) grid
  | .list storage items =>
      .list (if items.isEmpty then none else storage.map number) (Value.allRenumbered number items)
  | value => value

/-- Values whose arrays are in other storages. -/
def Value.allRenumbered (number : Nat → Nat) : List Value → List Value
  | [] => []
  | value :: rest => value.renumbered number :: Value.allRenumbered number rest

end

/-- What a state file holds of a machine, with its arrays in other storages. What it does not hold is as
in a new machine. -/
def Machine.persisted (number : Nat → Nat) (machine : Machine) : Machine :=
  { machine with
    stack := { machine.stack with values := machine.stack.values.map (Value.renumbered number) }
    lastX := machine.lastX.renumbered number
    bindings := ⟨machine.bindings.entries.map fun entry =>
      { entry with value := entry.value.renumbered number }⟩
    drawn := default
    memory := Grid.sizeLimit
    isInterrupted := false
    hasCrashed := false
    executed := none
    message := none
    question := none
    errors := []
    calls := []
    nextStorage := 0 }

namespace Value

theorem allRenumbered_eq_map (number : Nat → Nat) (values : List Value) :
    allRenumbered number values = values.map (renumbered number) := by
  induction values with
  | nil => rfl
  | cons value values ih => rw [allRenumbered, ih, List.map_cons]

theorem map_renumbered_eq {number : Nat → Option Nat} {first second : Nat → Nat}
    {values copies : List Value} (copied : List.Forall₂ (IsCopy number) values copies)
    (same : ∀ value ∈ values, ∀ copy, IsCopy number value copy →
      copy.renumbered first = value.renumbered second) :
    copies.map (renumbered first) = values.map (renumbered second) := by
  induction copied with
  | nil => rfl
  | cons copied _ ih =>
      rw [List.map_cons, List.map_cons, same _ List.mem_cons_self _ copied,
        ih fun value member => same value (List.mem_cons_of_mem _ member)]

/-- A copy is in the new storages of the original. -/
theorem IsCopy.renumbered_eq {number : Nat → Option Nat} {total : Nat → Nat}
    (agrees : ∀ storage new, number storage = some new → total storage = new) {value copy : Value}
    (copied : IsCopy number value copy) : copy.renumbered id = value.renumbered total := by
  induction value using item_induction generalizing copy with
  | null | real | complex | text =>
      cases copied
      rfl
  | realMatrix storage grid =>
      cases copied with
      | realMatrix grid numbered => simp [renumbered, agrees _ _ numbered]
  | complexMatrix storage grid =>
      cases copied with
      | complexMatrix grid numbered => simp [renumbered, agrees _ _ numbered]
  | list storage items ih =>
      cases copied with
      | emptyList storage new => rfl
      | list numbered copied =>
          have same := map_renumbered_eq (areCopies_iff.mp copied)
            fun item member _ => ih item member
          rw [renumbered, renumbered, allRenumbered_eq_map, allRenumbered_eq_map, same,
            copied.isEmpty_eq, Option.map_some, Option.map_some, agrees _ _ numbered, id]

end Value

/-! ## The editor of a machine in other storages -/

theorem lastIndex?_map {α β : Type} (property : β → Bool) (f : α → β) (items : List α) :
    lastIndex? property (items.map f) = lastIndex? (fun item => property (f item)) items := by
  induction items with
  | nil => rfl
  | cons item items ih => rw [List.map_cons, lastIndex?, ih, lastIndex?]

namespace Machine

variable (machine : Machine) (number : Nat → Nat)

/-- A change of the values of all variables. -/
theorem value?_map (f : Value → Value) (entries : List Variable) (name : List UInt8) (level : Int) :
    (⟨entries.map fun entry => { entry with value := f entry.value }⟩ : Variables).value? name level =
      ((⟨entries⟩ : Variables).value? name level).map f := by
  have samePlace :
      (⟨entries.map fun entry => { entry with value := f entry.value }⟩ :
        Variables).lookup? name level = (⟨entries⟩ : Variables).lookup? name level :=
    lastIndex?_map _ _ entries
  rw [Variables.value?, Variables.value?, samePlace]
  cases (⟨entries⟩ : Variables).lookup? name level with
  | none => rfl
  | some index =>
      simp only [Option.bind_some, Variables.get?, List.getElem?_map]
      cases entries[index]? <;> rfl

theorem recallName_persisted (name : List UInt8) :
    (machine.persisted number).recallName name =
      (machine.recallName name).map (Value.renumbered number) :=
  value?_map (Value.renumbered number) machine.bindings.entries name machine.level

theorem isSome_dimensions_renumbered (value : Value) :
    (Editor.dimensions (value.renumbered number)).toOption.isSome =
      (Editor.dimensions value).toOption.isSome := by
  cases value <;> rfl

theorem editorHasTarget_persisted (editor : Editor) :
    (machine.persisted number).editorHasTarget editor = machine.editorHasTarget editor := by
  rw [editorHasTarget, editorHasTarget, recallName_persisted]
  cases machine.recallName editor.name with
  | none => rfl
  | some value => exact isSome_dimensions_renumbered number value

/-- Whether the editor ends does not depend on the storages of arrays. -/
theorem checkEditor_persisted :
    (machine.persisted number).checkEditor = machine.checkEditor.persisted number := by
  have sameEditor : (machine.persisted number).editor = machine.editor := rfl
  cases isEditor : machine.editor with
  | none =>
      rw [checkEditor, sameEditor, isEditor, checkEditor, isEditor]
  | some editor =>
      simp only [checkEditor, sameEditor, isEditor, editorHasTarget_persisted]
      split <;> rfl

end Machine

namespace StateFile

open Reader

/-! ## A machine that shares arrays -/

/-- A column of a number and a text, in a storage. -/
def column : Value :=
  .realMatrix (some 1) ⟨2, 1, #v[.number 0, .text [65]], by decide, by decide⟩

/-- A list of the column and an empty list, in another storage. -/
def nested : Value := .list (some 2) [column, .list (some 3) []]

/-- A machine in a call that asks for a value. It holds the list twice and the column also beside it. -/
def nestedTwice : Machine :=
  { Machine.initial default with
    stack := ⟨true, [nested, column]⟩
    lastX := nested
    returns := { Returns.initial with items := [⟨.program 0, some 0, false, true, false, true⟩] }
    editor := some ⟨true, Machine.registersName, Variable.globalLevel, 24, 0, []⟩
    prompt := some ⟨.direct (.text [65]), "A"⟩ }

/-- What is in the storages of that machine. -/
def nestedHeap : Nat → Value
  | 0 => .realMatrix (some 0) ⟨25, 1, Vector.replicate 25 (.number 0), by decide, by decide⟩
  | 1 => column
  | 2 => nested
  | _ => .list (some 3) []

theorem held_nestedTwice : ∀ value ∈ heldValues nestedTwice, value.IsHeldIn nestedHeap := by
  have heldColumn : column.IsHeldIn nestedHeap := by
    refine ⟨⟨1, rfl, rfl⟩, by decide, by decide, ?_⟩
    intro bytes member
    simp at member
    subst member
    decide
  have heldNested : nested.IsHeldIn nestedHeap :=
    ⟨⟨2, rfl, rfl⟩, by decide, heldColumn, ⟨⟨3, rfl, rfl⟩, by decide, trivial⟩, trivial⟩
  intro value member
  have places : value = column ∨ value = nested ∨ value = nestedHeap 0 := by
    simpa [heldValues, nestedTwice, Machine.initial, Machine.new, Machine.newRegisters, Grid.filled,
      Grid.sizeLimit, nestedHeap] using member
  obtain rfl | rfl | rfl := places
  · exact heldColumn
  · exact heldNested
  · refine ⟨⟨0, rfl, rfl⟩, by decide, by decide, ?_⟩
    intro bytes member
    simp at member

theorem isStorable_nestedTwice : nestedTwice.IsStorable where
  held := ⟨nestedHeap, held_nestedTwice⟩
  fewShared := by decide
  depth := by decide
  fourLevels := by rintro ⟨⟩
  alpha := by decide
  variableCount := by decide
  bindings := by
    intro entry member
    have only : entry = ⟨Machine.registersName, Variable.globalLevel, 0, nestedHeap 0⟩ := by
      simpa [nestedTwice, Machine.initial, Machine.new, Machine.newRegisters, Grid.filled, Grid.sizeLimit,
        nestedHeap] using member
    subst only
    exact ⟨rfl, by decide⟩
  levelOrder := by decide
  task := by rintro _ ⟨⟩
  entry := by rintro _ ⟨⟩
  pendingDigits := by decide
  editor := by
    rintro editor ⟨⟩
    exact ⟨rfl, by decide, by decide, by decide, by decide, by rintro _ ⟨⟩⟩
  prompt := by
    rintro prompt ⟨⟩
    exact ⟨by decide, ⟨_, rfl⟩, by decide⟩
  lastError := by decide
  keys := by decide
  programCount := by decide
  hasProgram := by decide
  programs := by
    intro program member
    obtain rfl : program = .empty := List.mem_singleton.mp member
    have hasLines : Program.HasLines (fun _ => True) Program.empty.text [] := Program.hasLines_empty
    exact ⟨hasLines.check_eq, by decide⟩
  labels := rfl
  address := by rintro _ ⟨⟩
  place := by decide
  returns := by
    refine ⟨rfl, rfl, by decide, fun frame member => ?_⟩
    obtain rfl := List.mem_singleton.mp member
    refine ⟨?_, ?_⟩
    · rintro place ⟨⟩
      decide
    · rintro index ⟨⟩
      decide
  solver := ⟨by decide, by decide, by decide, by decide, by rintro _ ⟨⟩, by decide⟩
  integrator := ⟨by decide, by decide, by decide, by decide, by rintro _ ⟨⟩, by decide, by decide, by decide,
    by decide⟩

section

variable {machine : Machine}

/-! ## The sections of a file

Each is read back in front of whatever is read next. -/

theorem keeps_input (version : Nat) (storable : machine.IsStorable) :
    ∃ written,
      fields [inputFields machine, optionalField (editorFields version) machine.editor,
        optionalField promptFields machine.prompt] = .ok written ∧
      ∀ {α : Type} (next : UInt8 → Option Task → Option String → Option Opcode → String →
          Option Editor → Option Prompt → Reader α) rest before after result,
        Takes (next (bits machine.isRunning machine.isProgramming) machine.task
            (machine.entry.map fun entry => String.ofList entry.text) machine.pending
            (String.ofList machine.pendingDigits) (machine.editor.map (Editor.inLayout version))
            machine.prompt) rest before after result →
          Takes (do
            let mode ← byte
            let task ← task
            let entry ← optional shortText
            let pending ← pending
            let pendingDigits ← shortText
            let editor ← optional (editor version)
            let prompt ← optional prompt
            next mode task entry pending pendingDigits editor prompt) (written ++ rest) before after
              result := by
  have shortEntry : ∀ text ∈ machine.entry.map fun entry => String.ofList entry.text,
      Text.IsShort text := by
    intro text member
    obtain ⟨entry, isEntry, rfl⟩ := Option.map_eq_some_iff.mp member
    exact storable.entry entry isEntry
  obtain ⟨task, writtenTask, readsTask⟩ := keeps_task machine.task storable.task
  obtain ⟨entry, writtenEntry, readsEntry⟩ := keeps_optional
    (machine.entry.map fun entry => String.ofList entry.text)
    fun text member => keeps_shortText (shortEntry text member)
  obtain ⟨digits, writtenDigits, readsDigits⟩ := keeps_shortText storable.pendingDigits
  obtain ⟨editor, writtenEditor, readsEditor⟩ := keeps_optional_map machine.editor
    fun editor member => keeps_editor version (storable.editor editor member)
  obtain ⟨prompt, writtenPrompt, readsPrompt⟩ := keeps_optional machine.prompt
    fun prompt member => keeps_prompt (storable.prompt prompt member)
  have writtenInput : inputFields machine = .ok (bits machine.isRunning machine.isProgramming ::
      (task ++ (entry ++
        (word16Field ((machine.pending.map Opcode.code).getD noPending) ++ digits)))) := by
    have optionalText : optionalField shortTextField
        (machine.entry.map fun entry => String.ofList entry.text) = .ok entry := writtenEntry
    simp [inputFields, writtenTask, optionalText, shortTextField, writtenDigits]
  refine ⟨_, fields_cons_ok writtenInput (fields_cons_ok writtenEditor
    (fields_cons_ok writtenPrompt fields_nil)), fun next rest before after result takes => ?_⟩
  simp only [List.cons_append, List.append_assoc, List.append_nil]
  refine (reads_byte _ _).bind ((readsTask _).bind ((readsEntry _).bind ?_))
  refine (reads_pending _ _).bind ((readsDigits _).bind ?_)
  exact (readsEditor _).bind ((readsPrompt _).bind takes)

theorem reads_devices (version : Nat) (storable : machine.IsStorable) {α : Type}
    (next : Nat → Generator → Bool → KeyQueue → Display → Reader α) (rest : Bytes)
    {before after : Input} {result : α}
    (takes : Takes (next machine.lastError (machine.generator.inLayout version)
      machine.printsOnStop machine.keys machine.display) rest before after result) :
    Takes (do
      let lastError ← word 2
      let generator ← generator version
      let printsOnStop ← flag
      let keys ← keys
      let display ← sound (Display.ofBytes (← bytes Display.blank.toList.length))
      next lastError generator printsOnStop keys display)
      (deviceFields version machine ++ rest) before after result := by
  have readsDisplay := reads_bytes machine.display.toList
  rw [toList_length] at readsDisplay
  rw [deviceFields, List.append_assoc, List.append_assoc, List.append_assoc, List.append_assoc]
  refine (reads_word16 storable.lastError _).bind ((reads_generator version _ _).bind ?_)
  refine (reads_flag _ _).bind ((reads_keys storable.keys _).bind ((readsDisplay _).bind ?_))
  exact (reads_sound (ofBytes_toList machine.display) _).before takes

theorem keeps_place (storable : machine.IsStorable) :
    ∃ written, fields [countField machine.program, addressField machine.address] = .ok written ∧
      ∀ {α : Type} (next : Nat → Option Nat → Reader α) rest before after result,
        Takes (next machine.program machine.address) rest before after result →
          Takes (do
            let program ← word 4
            let address ← address
            next program address) (written ++ rest) before after result := by
  have fits : machine.program < 0x100000000 := by
    have inside := lt_count_of_isPlace storable.place
    have few := storable.programCount
    omega
  obtain ⟨address, writtenAddress, readsAddress⟩ := keeps_address storable.address
  refine ⟨_, fields_cons_ok (countField_eq fits) (fields_cons_ok writtenAddress fields_nil),
    fun next rest before after result takes => ?_⟩
  rw [List.append_nil, List.append_assoc]
  exact (reads_word32 fits _).bind ((readsAddress _).bind takes)

theorem ofList_programs (storable : machine.IsStorable) :
    Library.ofList machine.library.programs = .ok machine.library := by
  have full : machine.library.programs.isEmpty = false := by
    rw [List.isEmpty_eq_false_iff]
    exact storable.hasProgram
  rw [Library.ofList, full, ← storable.labels]
  rfl

theorem keeps_control (version : Nat) (storable : machine.IsStorable) :
    ∃ written,
      fields [programFields version machine, solverFields machine.solver,
        integratorFields machine.integrator] = .ok written ∧
      ∀ {α : Type} (next : Library → Returns → Solver → Integrator → Reader α) before after result,
        Takes (next machine.library (machine.returns.inLayout version) machine.solver
            machine.integrator) [] before after result →
          Takes (do
            let library ← sound (Library.ofList (← counted Reader.program))
            require (isPlace library machine.program machine.address)
            let returns ← returns version library
            let solver ← solver
            let integrator ← integrator
            next library returns solver integrator) written before after result := by
  have fits : machine.library.programs.length < 0x100000000 :=
    storable.programCount.trans_lt (by decide)
  obtain ⟨programs, writtenPrograms, readsPrograms⟩ := keeps_counted machine.library.programs fits
    fun program member =>
      keeps_program (storable.programs program member).1 (storable.programs program member).2
  obtain ⟨returns, writtenReturns, readsReturns⟩ :=
    keeps_returns version storable.programCount storable.returns
  obtain ⟨solver, writtenSolver, readsSolver⟩ := keeps_solver storable.solver
  obtain ⟨integrator, writtenIntegrator, readsIntegrator⟩ := keeps_integrator storable.integrator
  refine ⟨_, fields_cons_ok (fields_append_ok writtenPrograms writtenReturns)
    (fields_cons_ok writtenSolver (fields_cons_ok writtenIntegrator fields_nil)),
    fun next before after result takes => ?_⟩
  rw [List.append_nil, List.append_assoc]
  refine (readsPrograms _).bind ((reads_sound (ofList_programs storable) _).before ?_)
  refine (reads_require storable.place _).before ((readsReturns _).bind ?_)
  exact (readsSolver _).bind ((readsIntegrator _).then takes)

/-! ## The whole file -/

/-- What a state file holds of a machine, with other values. -/
def restored (machine : Machine) (stack : Stack) (lastX : Value) (bindings : Variables)
    (nextStorage : Nat) : Machine :=
  { machine with
    stack, lastX, bindings, nextStorage
    drawn := default
    memory := Grid.sizeLimit
    isInterrupted := false
    hasCrashed := false
    executed := none
    message := none
    question := none
    errors := []
    calls := [] }

theorem entry_of_text (entry : Option Entry) :
    ((entry.map fun entry => String.ofList entry.text).map fun text => (⟨text.toList⟩ : Entry)) =
      entry := by
  cases entry with
  | none => rfl
  | some entry => simp

/-- A body is read back if its values are. -/
theorem keeps_sections {version : Nat} (oldest : oldestVersion ≤ version)
    (newest : version ≤ currentVersion) (storable : machine.IsStorable) {stack : Stack}
    {lastX : Value} {bindings : Variables} {values : Bytes} {remembered : List Nat}
    {input after : Input}
    (writtenValues : (valuesFields ⟨version, sharedStorages machine⟩ machine).run [] =
      .ok (values, remembered))
    (takesValues : ∀ {α : Type} (next : Stack → Value → Bytes → Flags → Variables → Reader α) rest
        last result,
      Takes (next stack lastX machine.alpha machine.flags bindings) rest after last result →
        Takes (do
          let stack ← Reader.stack ⟨version, false⟩
          let lastX ← value ⟨version, false⟩
          let alpha ← Reader.alpha
          let flags ← Reader.flags
          let bindings ← sound (Variables.ofList (← counted (variableEntry ⟨version, false⟩)))
          next stack lastX alpha flags bindings) (values ++ rest) input last result) :
    ∃ contents,
      (∀ platform, write version platform machine =
        .ok (StateFile.signature version ++ (platformField platform ++
          (binaryNumbers :: (contents ++ StateFile.signature version))))) ∧
      Takes (body ⟨version, false⟩) contents input after
        (restored (machine.partsInLayout version) stack lastX bindings after.nextStorage) := by
  obtain ⟨inputBytes, writtenInput, takesInput⟩ := keeps_input version storable
  obtain ⟨place, writtenPlace, takesPlace⟩ := keeps_place storable
  obtain ⟨control, writtenControl, takesControl⟩ := keeps_control version storable
  refine ⟨inputBytes ++ (deviceFields version machine ++ (place ++ (values ++ control))),
    fun platform => ?_, ?_⟩
  · have known : ¬ (version < oldestVersion ∨ currentVersion < version) := by omega
    simp [write, known, writtenInput, writtenPlace, writtenValues, writtenControl]
  · refine takesInput _ _ _ _ _ (reads_devices version storable _ _ (takesPlace _ _ _ _ _ ?_))
    refine takesValues _ _ _ _ (takesControl _ _ _ _ ?_)
    intro rest
    simp only [runningBit, programmingBit, bits_first, bits_second, String.toList_ofList,
      entry_of_text]
    rfl

theorem keeps_body (storable : machine.IsStorable) (input : Input) (empty : input.shared = #[]) :
    ∃ (later : Transfer) (stack : Stack) (lastX : Value) (bindings : Variables) (contents : Bytes),
      (∃ heap, later.IsSound heap (sharedStorages machine)) ∧
      ValuesCopy later.number machine stack lastX bindings ∧
      (∀ platform, write currentVersion platform machine =
        .ok (StateFile.signature currentVersion ++ (platformField platform ++
          (binaryNumbers :: (contents ++ StateFile.signature currentVersion))))) ∧
      Takes (body ⟨currentVersion, false⟩) contents input later.input
        (restored machine stack lastX bindings later.input.nextStorage) := by
  obtain ⟨later, stack, lastX, bindings, values, remembered, sound, copied, writtenValues,
    takesValues⟩ := transmits_registers storable input empty
  obtain ⟨contents, written, takes⟩ :=
    keeps_sections (by decide) (Nat.le_refl _) storable writtenValues takesValues
  rw [partsInLayout_currentVersion] at takes
  exact ⟨later, stack, lastX, bindings, contents, sound, copied, written, takes⟩

/-- The new number of every storage. One that no array of the machine has gets a number behind those
that were given. -/
def Transfer.total (point : Transfer) (storage : Nat) : Nat :=
  (point.number storage).getD (point.input.nextStorage + storage)

theorem Transfer.IsSound.total_injective {heap : Nat → Value} {shared : List Nat} {point : Transfer}
    (sound : point.IsSound heap shared) : Function.Injective point.total := by
  intro first second same
  simp only [Transfer.total] at same
  cases isFirst : point.number first with
  | none =>
      cases isSecond : point.number second with
      | none =>
          rw [isFirst, isSecond, Option.getD_none, Option.getD_none] at same
          omega
      | some new =>
          have small := sound.number_lt second new isSecond
          rw [isFirst, isSecond, Option.getD_none, Option.getD_some] at same
          omega
  | some new =>
      have small := sound.number_lt first new isFirst
      cases isSecond : point.number second with
      | none =>
          rw [isFirst, isSecond, Option.getD_some, Option.getD_none] at same
          omega
      | some other =>
          rw [isFirst, isSecond, Option.getD_some, Option.getD_some] at same
          subst same
          exact sound.injective first second new isFirst isSecond

theorem ValuesCopy.persisted_restored {number : Nat → Option Nat} {total : Nat → Nat}
    (agrees : ∀ storage new, number storage = some new → total storage = new) {stack : Stack}
    {lastX : Value} {bindings : Variables} (copied : ValuesCopy number machine stack lastX bindings)
    (nextStorage : Nat) :
    (restored machine stack lastX bindings nextStorage).persisted id = machine.persisted total := by
  have sameEntry (entry copy : Variable) (copied : Variable.IsCopy number entry copy) :
      ({ entry with value := entry.value.renumbered total } : Variable) =
        { copy with value := copy.value.renumbered id } := by
    rw [copied.value.renumbered_eq agrees, copied.name, copied.level, copied.marks]
  have sameEntries : machine.bindings.entries.map (fun entry =>
        ({ entry with value := entry.value.renumbered total } : Variable)) =
      bindings.entries.map fun entry => { entry with value := entry.value.renumbered id } := by
    rw [← List.forall₂_eq_eq_eq, List.forall₂_map_left_iff, List.forall₂_map_right_iff]
    exact copied.bindings.imp sameEntry
  have sameValues := Value.map_renumbered_eq copied.values
    fun value _ copy copied => copied.renumbered_eq agrees
  rw [Machine.persisted, Machine.persisted]
  simp only [restored, sameValues, sameEntries, copied.lastX.renumbered_eq agrees, copied.isBig]

theorem takes_file {version : Nat} (oldest : oldestVersion ≤ version) (fits : IsWord32 version)
    {contents : Bytes} {before after : Input} {result : Machine} {platform : String}
    (short : (Text.toBytes platform).length ≤ maximalPlatformLength)
    (takes : Takes (body ⟨version, false⟩) contents before after result) :
    Takes (file ⟨version, false⟩) (StateFile.signature version ++ (platformField platform ++
      (binaryNumbers :: (contents ++ StateFile.signature version)))) before after
        result.checkEditor := by
  refine (reads_signature fits _).bind ((reads_require (decide_eq_true oldest) _).before ?_)
  refine (reads_platform short _).bind ((reads_byte binaryNumbers _).bind ?_)
  refine (reads_require (beq_self_eq_true binaryNumbers) _).before (takes.bind ?_)
  exact (reads_signature fits _).then (Takes.pure _ _)

/-- A machine that is written in the newest layout is read back in everything that a state file holds,
after the look at its editor. Its arrays are in new storages, which are different for different old
ones: arrays share a storage if and only if they did before. -/
theorem load_write (storable : machine.IsStorable) {platform : String}
    (short : (Text.toBytes platform).length ≤ maximalPlatformLength) (generator : Generator)
    (old : Machine) :
    ∃ (bytes : Bytes) (loaded : Machine) (number : Nat → Nat),
      write currentVersion platform machine = .ok bytes ∧
      load currentVersion bytes generator old = (.loaded, loaded) ∧
      Function.Injective number ∧
      loaded.persisted id = machine.checkEditor.persisted number := by
  obtain ⟨later, stack, lastX, bindings, contents, ⟨heap, sound⟩, copied, written, takes⟩ :=
    keeps_body storable { bytes := [] } rfl
  have isRead := takes_file (by decide) (by decide) short takes []
  rw [List.append_nil] at isRead
  refine ⟨_, { (restored machine stack lastX bindings later.input.nextStorage).checkEditor with
      calls := .repainted :: old.calls, memory := old.memory },
    later.total, written platform, ?_, sound.total_injective, ?_⟩
  · rw [load, if_neg (Nat.lt_irrefl _), read?, isRead]
  · have agrees : ∀ storage new, later.number storage = some new → later.total storage = new := by
      intro storage new numbered
      rw [Transfer.total, numbered, Option.getD_some]
    rw [← Machine.checkEditor_persisted, ← copied.persisted_restored agrees later.input.nextStorage,
      Machine.checkEditor_persisted]
    rfl

end

/-- The list and the column come back, and so does what they share. -/
theorem load_write_nested :
    nestedTwice.IsStorable ∧ (Text.toBytes "linux").length ≤ maximalPlatformLength ∧
    ∃ (bytes : Bytes) (loaded : Machine) (number : Nat → Nat),
      write currentVersion "linux" nestedTwice = .ok bytes ∧
      load currentVersion bytes default default = (.loaded, loaded) ∧
      Function.Injective number ∧
      loaded.persisted id = nestedTwice.checkEditor.persisted number :=
  ⟨isStorable_nestedTwice, by decide, load_write isStorable_nestedTwice (by decide) default default⟩

end StateFile

end Keystroke
