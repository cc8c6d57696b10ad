import Mathlib
import Keystroke.Proofs.Actions
import Keystroke.Proofs.FourLevels.Keeping
import Keystroke.Proofs.StateFile.Migration
import Keystroke.Proofs.StateFile.RoundTrip
import Keystroke.Proofs.VariableTable

/-!
# State files in older layouts

A machine that is written in an older layout is read back as what the layout holds of it. The stack, the
last X and the variables migrate one after the other, each behind the storages that were given out
before. Where there is a list that the layout has no place for, the writer stops at the first one.
-/

namespace Keystroke.StateFile

open Reader

/-! ## Stack and variables -/

section

variable {version : Nat} (shared : List Nat)

theorem migrates_level (old : holdsSharing version = false) {heap : Nat → Value} (value : Value)
    (held : value.IsHeldIn heap) (admitted : holdsLevels version = true ∨ value.isList = false) :
    Migrates (Value.inLayout currentVersion) Value.storages (valueField ⟨version, shared⟩ value)
      (fun _ => Reader.value ⟨version, false⟩) (value.inLayout version) := by
  obtain ⟨bytes, written, takes⟩ := migrates_value old value held admitted
  refine ⟨bytes, written, fun input => ?_⟩
  obtain ⟨result, next, taken, isKept, new⟩ := takes input
  exact ⟨result, next, fun _ _ => takes_value taken, isKept, new⟩

theorem migrates_variable (old : holdsSharing version = false) {heap : Nat → Value}
    (entry : Variable) (storable : entry.IsStorable) (held : entry.value.IsHeldIn heap)
    (admitted : holdsLevels version = true ∨ entry.value.isList = false) :
    Migrates (Variable.inLayout currentVersion) (fun entry => entry.value.storages)
      (variableField ⟨version, shared⟩ entry) (fun _ => variableEntry ⟨version, false⟩)
      (entry.inLayout version) := by
  obtain ⟨bytes, written, takes⟩ := migrates_level shared old entry.value held admitted
  obtain ⟨name, writtenName, readsName⟩ := keeps_name storable.name
  let place : Bytes :=
    if holdsLevels version then integerField entry.level ++ [entry.marks] else []
  refine ⟨name ++ place ++ bytes, fun before => ?_, fun input => ?_⟩
  · rw [variableField, writtenName]
    change (valueField ⟨version, shared⟩ entry.value >>= fun value =>
      pure (name ++ place ++ value)).run before = _
    rw [StateT.run_bind, written]
    rfl
  · obtain ⟨result, next, taken, isKept, new⟩ := takes input
    refine ⟨{ entry.inLayout version with value := result }, next, fun depth deep => ?_, ?_, new⟩
    · have shorter : bytes.length < depth := by
        simp only [List.length_append] at deep
        omega
      have takenValue (level : Int) (marks : UInt8) : Takes (do
          return Variable.mk entry.name level marks (← Reader.value ⟨version, false⟩)) bytes input
            { input with nextStorage := next } (Variable.mk entry.name level marks result) :=
        (taken depth shorter).then (Takes.pure _ _)
      have takenPlace : Takes (do
          let place ←
            if holdsLevels version then pure (← integer, ← byte)
            else pure (Variable.globalLevel, 0)
          return Variable.mk entry.name place.1 place.2 (← Reader.value ⟨version, false⟩))
            (place ++ bytes) input { input with nextStorage := next }
            { entry.inLayout version with value := result } := by
        dsimp only [place, Variable.inLayout]
        cases holdsLevels version with
        | true =>
            exact (reads_integer storable.level.1 storable.level.2 _).bind
              ((reads_byte entry.marks _).bind (takenValue entry.level entry.marks))
        | false => exact takenValue Variable.globalLevel 0
      rw [List.append_assoc]
      exact (readsName _).bind takenPlace
    · rw [Variable.inLayout, isKept]
      rfl

/-! ### Levels of variables -/

theorem inLevelOrder_inLayout (version : Nat) {entries : List Variable}
    (ordered : Variables.inLevelOrder entries = true) :
    Variables.inLevelOrder (entries.map (Variable.inLayout version)) = true := by
  rw [Variables.inLevelOrder_iff] at ordered ⊢
  rw [List.pairwise_map]
  refine ordered.imp fun {older newer} le => ?_
  rw [Variable.inLayout, Variable.inLayout]
  dsimp only
  split
  · exact le
  · exact Int.le_refl _

theorem inLevelOrder_of_inLayout {entries : List Variable}
    (ordered : Variables.inLevelOrder (entries.map (Variable.inLayout currentVersion)) = true) :
    Variables.inLevelOrder entries = true := by
  rw [Variables.inLevelOrder_iff] at ordered ⊢
  rw [List.pairwise_map] at ordered
  exact ordered

theorem heldVariables_sublist (version : Nat) (bindings : Variables) :
    (heldVariables version bindings).Sublist bindings.entries := by
  rw [heldVariables]
  split
  · exact List.Sublist.refl _
  · exact List.filter_sublist

/-- What an older layout holds of the variables is in the order of levels. -/
theorem inLevelOrder_heldVariables (version : Nat) {bindings : Variables}
    (ordered : Variables.inLevelOrder bindings.entries = true) {entries : List Variable}
    (kept : entries.map (Variable.inLayout currentVersion) =
      (heldVariables version bindings).map (Variable.inLayout version)) :
    Variables.inLevelOrder entries = true := by
  refine inLevelOrder_of_inLayout ?_
  rw [kept]
  refine inLevelOrder_inLayout version ?_
  rw [Variables.inLevelOrder_iff] at ordered ⊢
  exact ordered.sublist (heldVariables_sublist version bindings)

end

/-! ## Stack and variables of a machine -/

section

variable {version : Nat} {machine : Machine}

/-- The stack, the last X and the variables that an older layout gives back, in new storages. -/
structure ValuesMigrate (version : Nat) (machine : Machine) (stack : Stack) (lastX : Value)
    (bindings : Variables) : Prop where
  distinct : ((stack.values.reverse ++ lastX :: bindings.entries.map Variable.value).flatMap
    Value.storages).Nodup
  isSmall : stack.isBig = false
  values : stack.values.map (Value.inLayout currentVersion) =
    (heldLevels version machine.stack).map (Value.inLayout version)
  lastX : lastX.inLayout currentVersion = machine.lastX.inLayout version
  bindings : bindings.entries.map (Variable.inLayout currentVersion) =
    (heldVariables version machine.bindings).map (Variable.inLayout version)

theorem heldLevels_older (old : holdsSharing version = false) (stack : Stack) :
    heldLevels version stack = Stack.fitFour stack.values := by
  rw [heldLevels, old]
  rfl

theorem fitFour_of_length {values : List Value} (four : values.length = Stack.fourLevels) :
    Stack.fitFour values = values := by
  rw [Stack.fitFour, four, List.take_of_length_le (Nat.le_of_eq four)]
  simp

theorem countField_heldLevels (old : holdsSharing version = false) (stack : Stack) :
    countField (heldLevels version stack).length = .ok (word32Field Stack.fourLevels) := by
  rw [heldLevels_older old, Stack.length_fitFour]
  rfl

theorem isWord32_heldVariables (version : Nat) (storable : machine.IsStorable) :
    IsWord32 (heldVariables version machine.bindings).length :=
  (heldVariables_sublist version machine.bindings).length_le.trans_lt storable.variableCount

/-- What an older layout holds is held in the same storages. -/
theorem held_older (old : holdsSharing version = false) (storable : machine.IsStorable) :
    ∃ heap, (∀ value ∈ heldLevels version machine.stack, value.IsHeldIn heap) ∧
      machine.lastX.IsHeldIn heap ∧
      ∀ entry ∈ heldVariables version machine.bindings, entry.value.IsHeldIn heap := by
  obtain ⟨heap, held⟩ := storable.held
  refine ⟨heap, fun value member => ?_, held _ (by simp [heldValues]), fun entry member => ?_⟩
  · rw [heldLevels_older old, Stack.fitFour, List.mem_append] at member
    rcases member with member | member
    · exact held value (by simp [heldValues, List.mem_of_mem_take member])
    · rw [List.eq_of_mem_replicate member]
      trivial
  · have isEntry := (heldVariables_sublist version machine.bindings).mem member
    exact held _ (by simpa [heldValues] using .inr (.inr ⟨entry, isEntry, rfl⟩))

/-- The four levels that an older layout holds, written from the bottom. -/
theorem migrates_stack (old : holdsSharing version = false) {heap : Nat → Value} (stack : Stack)
    (held : ∀ value ∈ heldLevels version stack, value.IsHeldIn heap)
    (admitted : ∀ value ∈ heldLevels version stack,
      holdsLevels version = true ∨ value.isList = false) (shared : List Nat) :
    ∃ bytes, (∀ written, (valueFields ⟨version, shared⟩ (heldLevels version stack).reverse).run written =
        .ok (bytes, written)) ∧
      ∀ input : Input, ∃ (result : Stack) (next : Nat),
        Takes (Reader.stack ⟨version, false⟩) (word32Field Stack.fourLevels ++ bytes) input
          { input with nextStorage := next } result ∧
        result.isBig = false ∧
        result.values.map (Value.inLayout currentVersion) =
          (heldLevels version stack).map (Value.inLayout version) ∧
        AreNew input.nextStorage next (result.values.reverse.flatMap Value.storages) := by
  have four : (heldLevels version stack).length = Stack.fourLevels := by
    rw [heldLevels_older old, Stack.length_fitFour]
  obtain ⟨bytes, written, takes⟩ := migrates_many (heldLevels version stack).reverse
    fun value member => migrates_level shared old value (held value (List.mem_reverse.mp member))
      (admitted value (List.mem_reverse.mp member))
  simp only [← valueFields_eq] at written
  refine ⟨bytes, written, fun input => ?_⟩
  obtain ⟨levels, next, taken, kept, new⟩ := takes input
  have fourRead : levels.reverse.length = Stack.fourLevels := by
    have sameLength := congrArg List.length kept
    simpa [four] using sameLength
  have values : (Stack.ofValues false levels.reverse).values = levels.reverse := by
    rw [Stack.ofValues, if_neg Bool.false_ne_true, fitFour_of_length fourRead]
  refine ⟨.ofValues false levels.reverse, next, ?_, rfl, ?_, ?_⟩
  · have readsFour : Reads (Reader.word 4) (word32Field Stack.fourLevels) Stack.fourLevels :=
      reads_word32 (by decide)
    have takenLevels := taken _ (Nat.lt_succ_self _)
    rw [List.length_reverse, four] at takenLevels
    rw [Reader.stack, old]
    refine (Takes.pure false _).before ((readsFour _).bind ?_)
    refine (reads_require (beq_self_eq_true Stack.fourLevels) _).before ?_
    exact takenLevels.then (Takes.pure _ _)
  · rw [values, List.map_reverse, kept, List.map_reverse, List.reverse_reverse]
  · rw [values, List.reverse_reverse]
    exact new

/-- The variables that an older layout holds. -/
theorem migrates_table (old : holdsSharing version = false) (storable : machine.IsStorable)
    {heap : Nat → Value}
    (held : ∀ entry ∈ heldVariables version machine.bindings, entry.value.IsHeldIn heap)
    (admitted : ∀ entry ∈ heldVariables version machine.bindings,
      holdsLevels version = true ∨ entry.value.isList = false) (shared : List Nat) :
    ∃ bytes, (∀ written, (List.flatten <$> (heldVariables version machine.bindings).mapM
        (variableField ⟨version, shared⟩)).run written = .ok (bytes, written)) ∧
      ∀ input : Input, ∃ (entries : List Variable) (next : Nat),
        Takes (counted (variableEntry ⟨version, false⟩))
          (word32Field (heldVariables version machine.bindings).length ++ bytes) input
          { input with nextStorage := next } entries ∧
        Variables.ofList entries = .ok ⟨entries⟩ ∧
        entries.map (Variable.inLayout currentVersion) =
          (heldVariables version machine.bindings).map (Variable.inLayout version) ∧
        AreNew input.nextStorage next (entries.flatMap fun entry => entry.value.storages) := by
  obtain ⟨bytes, written, takes⟩ := migrates_many (heldVariables version machine.bindings)
    fun entry member => migrates_variable shared old entry
      (storable.bindings entry ((heldVariables_sublist version _).mem member)) (held entry member)
      (admitted entry member)
  refine ⟨bytes, written, fun input => ?_⟩
  obtain ⟨entries, next, taken, kept, new⟩ := takes input
  have readsCount := reads_word32 (isWord32_heldVariables version storable)
  exact ⟨entries, next, (readsCount _).bind (taken _ (Nat.lt_succ_self _)),
    if_pos (inLevelOrder_heldVariables version storable.levelOrder kept), kept, new⟩

theorem migrates_registers (old : holdsSharing version = false) (storable : machine.IsStorable)
    (admitted : ∀ value ∈ valuesInLayout version machine,
      holdsLevels version = true ∨ value.isList = false) (input : Input) :
    ∃ stack lastX bindings nextStorage written,
      ValuesMigrate version machine stack lastX bindings ∧
      (valuesFields ⟨version, sharedStorages machine⟩ machine).run [] = .ok (written, []) ∧
      ∀ {α : Type} (next : Stack → Value → Bytes → Flags → Variables → Reader α) rest after result,
        Takes (next stack lastX machine.alpha machine.flags bindings) rest
            { input with nextStorage } after result →
          Takes (do
            let stack ← Reader.stack ⟨version, false⟩
            let lastX ← value ⟨version, false⟩
            let alpha ← Reader.alpha
            let flags ← Reader.flags
            let bindings ← sound (Variables.ofList (← counted (variableEntry ⟨version, false⟩)))
            next stack lastX alpha flags bindings) (written ++ rest) input after result := by
  obtain ⟨heap, heldLevel, heldLastX, heldEntry⟩ := held_older old storable
  obtain ⟨stackBytes, writtenStack, takesStack⟩ := migrates_stack old machine.stack heldLevel
    (fun value member => admitted value (List.mem_append_left _ member)) (sharedStorages machine)
  obtain ⟨lastXBytes, writtenLastX, takesLastX⟩ :=
    migrates_level (sharedStorages machine) old machine.lastX heldLastX
      (admitted _ (by simp [valuesInLayout]))
  obtain ⟨alpha, writtenAlpha, readsAlpha⟩ := keeps_alpha storable.alpha
  obtain ⟨entryBytes, writtenEntries, takesEntries⟩ := migrates_table old storable heldEntry
    (fun entry member => admitted _ (by simpa [valuesInLayout] using .inr (.inr ⟨entry, member, rfl⟩)))
    (sharedStorages machine)
  obtain ⟨stack, afterStack, takenStack, isSmall, keptStack, newStack⟩ := takesStack input
  obtain ⟨lastX, afterLastX, takenLastX, keptLastX, newLastX⟩ :=
    takesLastX { input with nextStorage := afterStack }
  obtain ⟨entries, afterEntries, takenEntries, isTable, keptEntries, newEntries⟩ :=
    takesEntries { input with nextStorage := afterLastX }
  refine ⟨stack, lastX, ⟨entries⟩, afterEntries,
    (word32Field Stack.fourLevels ++ stackBytes) ++
      (lastXBytes ++ (alpha ++
        ((machine.flags.toList.length.toUInt8 :: machine.flags.toList.flatMap flagField) ++
          (word32Field (heldVariables version machine.bindings).length ++ entryBytes)))),
    ⟨?_, isSmall, keptStack, keptLastX, keptEntries⟩, ?_, ?_⟩
  · rw [List.flatMap_append, List.flatMap_cons, List.flatMap_map]
    exact (newStack.append (newLastX.append newEntries)).distinct
  · have writtenCount := countField_eq (isWord32_heldVariables version storable)
    obtain ⟨parts, writtenParts, flat⟩ := run_of_run_flatten (writtenEntries [])
    simp [valuesFields, old, countField_heldLevels, writtenStack, writtenLastX, writtenAlpha,
      writtenCount, writtenParts, flat]
  · intro α next rest after result takes
    rw [List.append_assoc (word32Field _ ++ _), List.append_assoc lastXBytes,
      List.append_assoc alpha, List.append_assoc (_ :: _)]
    refine takenStack.bind ((takenLastX _ (Nat.lt_succ_self _)).bind ((readsAlpha _).bind
      ((reads_flags machine.flags _).bind ?_)))
    exact takenEntries.bind ((reads_sound isTable _).before takes)

end

/-! ## Lists in layouts that have no place for them -/

section

variable {α β : Type}

/-- The writer stops, because there is a list. -/
def Refuses (write : Writer α) : Prop :=
  ∀ before, write.run before = failWith .invalidType "LIST IN OLD LAYOUT"

/-- The writer goes on, and remembers what it did before. -/
def Writes (write : Writer α) : Prop :=
  ∃ result, ∀ before, write.run before = .ok (result, before)

theorem Migrates.writes {γ : Type} {erased : α → γ} {storages : α → List Nat}
    {write : Writer Bytes} {read : Nat → Reader α} {kept : γ}
    (migrates : Migrates erased storages write read kept) : Writes write :=
  let ⟨bytes, written, _⟩ := migrates
  ⟨bytes, written⟩

theorem writes_of_eq_ok {field : Outcome Bytes} {bytes : Bytes} (written : field = .ok bytes) :
    Writes (liftM field : Writer Bytes) := by
  subst written
  exact ⟨bytes, fun _ => rfl⟩

theorem Refuses.bind {write : Writer α} (refuses : Refuses write) (next : α → Writer β) :
    Refuses (write >>= next) := by
  intro before
  rw [StateT.run_bind, refuses]
  rfl

theorem Writes.bind {write : Writer α} {next : α → Writer β} (writes : Writes write)
    (refuses : ∀ result, Refuses (next result)) : Refuses (write >>= next) := by
  obtain ⟨result, written⟩ := writes
  intro before
  rw [StateT.run_bind, written]
  exact refuses result before

/-- Of several things that are written one after the other, the first that is refused stops the
writer. -/
theorem refuses_mapM {write : β → Writer α} {items : List β}
    (each : ∀ item ∈ items, Writes (write item) ∨ Refuses (write item)) {item : β}
    (member : item ∈ items) (refuses : Refuses (write item)) : Refuses (items.mapM write) := by
  induction items with
  | nil => cases member
  | cons first rest ih =>
      rw [List.mapM_cons]
      rcases List.mem_cons.mp member with rfl | inRest
      · exact refuses.bind _
      · rcases each first List.mem_cons_self with writes | refusesFirst
        · have refusesRest := ih (fun other inRest => each other (List.mem_cons_of_mem _ inRest)) inRest
          exact writes.bind fun _ => refusesRest.bind _
        · exact refusesFirst.bind _

end

section

variable {version : Nat} {shared : List Nat} {heap : Nat → Value}

theorem refuses_list (plain : holdsLevels version = false) {value : Value}
    (isList : value.isList = true) : Refuses (valueField ⟨version, shared⟩ value) := by
  intro before
  cases value <;> cases isList
  rw [valueField, plain]
  rfl

theorem value_written (plain : holdsLevels version = false) (old : holdsSharing version = false)
    {value : Value} (held : value.IsHeldIn heap) :
    value.isList = false ∧ Writes (valueField ⟨version, shared⟩ value) ∨
      Refuses (valueField ⟨version, shared⟩ value) := by
  cases isList : value.isList with
  | false => exact .inl ⟨rfl, (migrates_value old value held (.inr isList)).writes⟩
  | true => exact .inr (refuses_list plain isList)

theorem levels_written (plain : holdsLevels version = false) (old : holdsSharing version = false)
    {values : List Value} (held : ∀ value ∈ values, value.IsHeldIn heap) :
    (∀ value ∈ values, value.isList = false) ∧ Writes (valueFields ⟨version, shared⟩ values) ∨
      Refuses (valueFields ⟨version, shared⟩ values) := by
  by_cases holdsList : ∃ value ∈ values, value.isList = true
  · obtain ⟨value, member, isList⟩ := holdsList
    have refuses : Refuses (values.mapM (valueField ⟨version, shared⟩)) :=
      refuses_mapM (fun other member => (value_written plain old (held other member)).imp_left And.right)
        member (refuses_list plain isList)
    rw [valueFields_eq, map_eq_pure_bind]
    exact .inr (refuses.bind _)
  · have noList : ∀ value ∈ values, value.isList = false := fun value member =>
      Bool.eq_false_iff.mpr fun isList => holdsList ⟨value, member, isList⟩
    have migrates := migrates_many values fun value member =>
      migrates_level shared old value (held value member) (.inr (noList value member))
    rw [← valueFields_eq] at migrates
    exact .inl ⟨noList, migrates.writes⟩

theorem variable_written (plain : holdsLevels version = false) (old : holdsSharing version = false)
    {entry : Variable} (storable : entry.IsStorable) (held : entry.value.IsHeldIn heap) :
    entry.value.isList = false ∧ Writes (variableField ⟨version, shared⟩ entry) ∨
      Refuses (variableField ⟨version, shared⟩ entry) := by
  cases isList : entry.value.isList with
  | false => exact .inl ⟨rfl, (migrates_variable shared old entry storable held (.inr isList)).writes⟩
  | true =>
      obtain ⟨name, written, -⟩ := keeps_name storable.name
      exact .inr ((writes_of_eq_ok written).bind fun _ => (refuses_list plain isList).bind _)

/-- The writer stops at the first list. -/
theorem refuses_values (plain : holdsLevels version = false) (old : holdsSharing version = false)
    {machine : Machine} (storable : machine.IsStorable) {value : Value}
    (member : value ∈ valuesInLayout version machine) (isList : value.isList = true) :
    Refuses (valuesFields ⟨version, shared⟩ machine) := by
  obtain ⟨heap, heldLevel, heldLastX, heldEntry⟩ := held_older old storable
  obtain ⟨alpha, writtenAlpha, -⟩ := keeps_alpha storable.alpha
  have count := isWord32_heldVariables version storable
  rw [valuesFields]
  refine (writes_of_eq_ok (countField_heldLevels old machine.stack)).bind fun _ => ?_
  obtain ⟨noneInStack, stack⟩ | refuses := levels_written plain old fun other member =>
    heldLevel other (List.mem_reverse.mp member)
  swap
  · exact refuses.bind _
  refine stack.bind fun _ => ?_
  obtain ⟨notLastX, lastX⟩ | refuses := value_written plain old heldLastX
  swap
  · exact refuses.bind _
  refine lastX.bind fun _ => (writes_of_eq_ok writtenAlpha).bind fun _ => ?_
  refine (writes_of_eq_ok (countField_eq count)).bind fun _ => ?_
  -- No list was met so far, so the one that the machine holds is in a variable.
  obtain ⟨entry, isEntry, rfl⟩ :
      ∃ entry ∈ heldVariables version machine.bindings, entry.value = value := by
    rcases List.mem_append.mp member with inStack | member
    · rw [noneInStack value (List.mem_reverse.mpr inStack)] at isList
      cases isList
    · rcases List.mem_cons.mp member with rfl | member
      · rw [notLastX] at isList
        cases isList
      · exact List.mem_map.mp member
  have written : ∀ entry ∈ heldVariables version machine.bindings,
      entry.value.isList = false ∧ Writes (variableField ⟨version, shared⟩ entry) ∨
        Refuses (variableField ⟨version, shared⟩ entry) := fun entry member =>
    variable_written plain old
      (storable.bindings entry ((heldVariables_sublist version _).mem member)) (heldEntry entry member)
  refine (refuses_mapM (fun other member => (written other member).imp_left And.right) isEntry ?_).bind _
  exact (written entry isEntry).resolve_left fun noList => Bool.noConfusion (isList.symm.trans noList.1)

end

/-! ## The whole file -/

theorem isSome_dimensions_inLayout (version : Nat) (value : Value) :
    (Editor.dimensions (value.inLayout version)).toOption.isSome =
      (Editor.dimensions value).toOption.isSome := by
  cases value <;> rfl

section

variable (machine : Machine)

theorem recallName_inLayout (name : List UInt8) :
    (machine.inLayout currentVersion).recallName name =
      (machine.recallName name).map (Value.inLayout currentVersion) := by
  rw [Machine.inLayout, partsInLayout_currentVersion]
  exact Machine.value?_map (Value.inLayout currentVersion) machine.bindings.entries name
    machine.level

theorem editorHasTarget_inLayout (editor : Editor) :
    (machine.inLayout currentVersion).editorHasTarget editor = machine.editorHasTarget editor := by
  rw [Machine.editorHasTarget, Machine.editorHasTarget, recallName_inLayout]
  cases machine.recallName editor.name with
  | none => rfl
  | some value => exact isSome_dimensions_inLayout currentVersion value

theorem checkEditor_inLayout :
    machine.checkEditor.inLayout currentVersion =
      (machine.inLayout currentVersion).checkEditor := by
  have sameEditor : (machine.inLayout currentVersion).editor = machine.editor := by
    rw [Machine.inLayout, partsInLayout_currentVersion]
  cases isEditor : machine.editor with
  | none => rw [Machine.checkEditor, Machine.checkEditor, sameEditor, isEditor]
  | some editor =>
      simp only [Machine.checkEditor, sameEditor, isEditor, editorHasTarget_inLayout]
      split <;> rfl

end

section

variable {version : Nat} {machine : Machine}

theorem ValuesMigrate.restored_inLayout {stack : Stack} {lastX : Value} {bindings : Variables}
    (old : holdsSharing version = false)
    (migrate : ValuesMigrate version machine stack lastX bindings) (nextStorage : Nat) :
    (restored (machine.partsInLayout version) stack lastX bindings nextStorage).inLayout
      currentVersion = machine.inLayout version := by
  have sameStack : stack.inLayout currentVersion = machine.stack.inLayout version := by
    rw [Stack.inLayout, Stack.inLayout, old, migrate.isSmall]
    exact congrArg (Stack.mk false) migrate.values
  have sameBindings :
      (heldVariables currentVersion bindings).map (Variable.inLayout currentVersion) =
        (heldVariables version machine.bindings).map (Variable.inLayout version) :=
    migrate.bindings
  rw [Machine.inLayout, partsInLayout_currentVersion, Machine.inLayout]
  simp only [restored, sameStack, sameBindings, migrate.lastX]

theorem heldValues_checkEditor (machine : Machine) :
    heldValues machine.checkEditor = heldValues machine := by
  obtain ⟨editor, same, -⟩ := machine.exists_checkEditor
  rw [same]
  rfl

theorem write_of_isRefused (oldest : oldestVersion ≤ version) (old : holdsSharing version = false)
    (storable : machine.IsStorable) (refused : IsRefused version machine) (platform : String) :
    write version platform machine = failWith .invalidType "LIST IN OLD LAYOUT" := by
  obtain ⟨plain, value, member, isList⟩ := refused
  obtain ⟨inputBytes, writtenInput, -⟩ := keeps_input version storable
  obtain ⟨place, writtenPlace, -⟩ := keeps_place storable
  have refuses : Refuses (valuesFields ⟨version, sharedStorages machine⟩ machine) :=
    refuses_values plain old storable member isList
  have known : ¬ (version < oldestVersion ∨ currentVersion < version) := by
    have isOld : ¬ currentVersion ≤ version := of_decide_eq_false old
    omega
  simp only [write, known, if_false, writtenInput, writtenPlace, refuses []]
  rfl

theorem load_write_of_not_isRefused (oldest : oldestVersion ≤ version)
    (older : version < currentVersion) (storable : machine.IsStorable)
    (admitted : ¬ IsRefused version machine) {platform : String}
    (short : (Text.toBytes platform).length ≤ maximalPlatformLength) (generator : Generator)
    (replaced : Machine) :
    ∃ (bytes : Bytes) (loaded : Machine),
      write version platform machine = .ok bytes ∧
      load version bytes generator replaced = (.loaded, loaded) ∧
      loaded.inLayout currentVersion = (machine.inLayout version).checkEditor ∧
      ((heldValues loaded).flatMap Value.storages).Nodup := by
  have old : holdsSharing version = false := decide_eq_false (Nat.not_le.mpr older)
  have fits : IsWord32 version := older.trans (by decide)
  have noList : ∀ value ∈ valuesInLayout version machine,
      holdsLevels version = true ∨ value.isList = false := by
    intro value member
    by_contra neither
    rw [not_or, Bool.not_eq_true, Bool.not_eq_false] at neither
    exact admitted ⟨neither.1, value, member, neither.2⟩
  obtain ⟨stack, lastX, bindings, nextStorage, values, migrate, writtenValues, takesValues⟩ :=
    migrates_registers old storable noList { bytes := [] }
  obtain ⟨contents, written, takes⟩ :=
    keeps_sections oldest older.le storable writtenValues takesValues
  have isRead := takes_file oldest fits short takes []
  rw [List.append_nil] at isRead
  let read := restored (machine.partsInLayout version) stack lastX bindings nextStorage
  let loaded : Machine :=
    { read.checkEditor with calls := .repainted :: replaced.calls, memory := replaced.memory }
  refine ⟨_, loaded, written platform, ?_, ?_, ?_⟩
  · rw [load, if_neg (Nat.not_lt.mpr older.le), read?, isRead]
  · have sameParts : loaded.inLayout currentVersion = read.checkEditor.inLayout currentVersion := rfl
    rw [sameParts, checkEditor_inLayout, migrate.restored_inLayout old]
  · have sameValues : heldValues loaded = heldValues read := heldValues_checkEditor read
    rw [sameValues]
    exact migrate.distinct

/-- A machine is refused by an older layout exactly if it holds a list where the layout has no place for
one. Otherwise it is written and read back as what the layout holds of it, after the look at its editor,
and all its arrays are in storages of their own. -/
theorem load_write_older (oldest : oldestVersion ≤ version) (older : version < currentVersion)
    (storable : machine.IsStorable) {platform : String}
    (short : (Text.toBytes platform).length ≤ maximalPlatformLength) (generator : Generator)
    (replaced : Machine) :
    ((∃ detail, write version platform machine = failWith .invalidType detail) ↔
      IsRefused version machine) ∧
    (¬ IsRefused version machine →
      ∃ (bytes : Bytes) (loaded : Machine),
        write version platform machine = .ok bytes ∧
        load version bytes generator replaced = (.loaded, loaded) ∧
        loaded.inLayout currentVersion = (machine.inLayout version).checkEditor ∧
        ((heldValues loaded).flatMap Value.storages).Nodup) := by
  have old : holdsSharing version = false := decide_eq_false (Nat.not_le.mpr older)
  have readsBack (admitted : ¬ IsRefused version machine) :=
    load_write_of_not_isRefused oldest older storable admitted short generator replaced
  refine ⟨⟨fun ⟨detail, refused⟩ => ?_, fun refused => ?_⟩, readsBack⟩
  · by_contra admitted
    obtain ⟨bytes, -, written, -⟩ := readsBack admitted
    rw [refused] at written
    cases written
  · exact ⟨_, write_of_isRefused oldest old storable refused platform⟩

/-- A layout with lists keeps the nested one and gives each of its arrays a storage of its own, and the
last one without them refuses it. -/
theorem load_write_older_nested :
    oldestVersion ≤ 46 ∧ 46 < currentVersion ∧ nestedTwice.IsStorable ∧
    (Text.toBytes "linux").length ≤ maximalPlatformLength ∧
    (∃ (bytes : Bytes) (loaded : Machine),
      write 46 "linux" nestedTwice = .ok bytes ∧
      load 46 bytes default default = (.loaded, loaded) ∧
      loaded.inLayout currentVersion = (nestedTwice.inLayout 46).checkEditor ∧
      ((heldValues loaded).flatMap Value.storages).Nodup) ∧
    oldestVersion ≤ 41 ∧ 41 < currentVersion ∧
    ∃ detail, write 41 "linux" nestedTwice = failWith .invalidType detail := by
  have holdsLists : ¬ IsRefused 46 nestedTwice := fun refused => Bool.noConfusion refused.1
  have lacksLists : IsRefused 41 nestedTwice :=
    ⟨rfl, nested, by simp [valuesInLayout, nestedTwice, Machine.initial, Machine.new], rfl⟩
  have short : (Text.toBytes "linux").length ≤ maximalPlatformLength := by decide
  exact ⟨by decide, by decide, isStorable_nestedTwice, short,
    (load_write_older (by decide) (by decide) isStorable_nestedTwice short default default).2 holdsLists,
    by decide, by decide,
    (load_write_older (by decide) (by decide) isStorable_nestedTwice short default default).1.mpr
      lacksLists⟩

end

end Keystroke.StateFile
