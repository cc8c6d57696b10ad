import Mathlib
import Keystroke.Proofs.Places.Reachable
import Keystroke.Proofs.StateFile.Locality

/-!
# Truncated files

A file ends where its reader stops, whatever machine was written to it. So a reader that were content
with less than the whole file would be content with the whole file as well and leave something of it.
-/

namespace Keystroke

open StateFile Reader

/-! ## Machines that fit into their fields -/

/-- What counts the waiting keys and the columns of matrices has room for them, as it has in every machine
that can be reached. -/
structure Machine.IsRepresentable (machine : Machine) : Prop where
  keys : machine.keys.keys.length ≤ KeyQueue.capacity
  values : ∀ value ∈ heldValues machine, value.Within Grid.IsNarrow fun _ => True

mutual

theorem Value.IsHeldIn.within {heap : Nat → Value} : (value : Value) → value.IsHeldIn heap →
    value.Within Grid.IsNarrow fun _ => True
  | .realMatrix .., held => ⟨fun _ _ => trivial, held.2.2.1⟩
  | .complexMatrix .., held => ⟨fun _ _ => trivial, held.2.2⟩
  | .list _ items, held => ⟨fun _ _ => trivial, AllHeldIn.within items held.2.2⟩
  | .null, _ | .real _, _ | .complex _, _ | .text _, _ => trivial

theorem Value.AllHeldIn.within {heap : Nat → Value} : (values : List Value) → AllHeldIn heap values →
    AllWithin Grid.IsNarrow (fun _ => True) values
  | [], _ => trivial
  | value :: rest, held => ⟨IsHeldIn.within value held.1, AllHeldIn.within rest held.2⟩

end

namespace Machine

variable {machine : Machine}

theorem IsStorable.isRepresentable (storable : machine.IsStorable) : machine.IsRepresentable := by
  obtain ⟨heap, held⟩ := storable.held
  exact ⟨storable.keys, fun value member => (held value member).within⟩

theorem IsReachable.isRepresentable (reachable : machine.IsReachable) : machine.IsRepresentable := by
  obtain ⟨calls, placed, settled⟩ := reachable.isPlaced
  refine ⟨settled.keys, fun value member => ?_⟩
  have fits : value.Fits (calls.free machine.nextStorage) := by
    rcases List.mem_append.mp member with inStack | others
    · exact settled.stack value (List.mem_reverse.mp inStack)
    rcases List.mem_cons.mp others with rfl | inTable
    · exact settled.lastX
    · obtain ⟨entry, isEntry, rfl⟩ := List.mem_map.mp inTable
      apply settled.bindings.fits entry isEntry
      rw [placed.names]
      exact List.not_mem_nil
  exact fits.mono Grid.isNarrow_of_isSmall (fun _ _ => trivial) value

end Machine

namespace StateFile

section

variable {version : Nat} {machine : Machine} {shared : List Nat} {cuts : Bool} {bound : Nat}

/-! ## Registers -/

/-- A variable with any name. -/
theorem tracks_anyVariable {free : Nat → Prop} {entry : Variable} (fits : entry.value.Within Grid.IsNarrow free) :
    Tracks Grid.IsNarrow [] bound (variableField ⟨version, shared⟩ entry) (fun _ => variableEntry ⟨version, cuts⟩)
      fun own _ _ => own = [] := by
  intro written bytes later wrote depth
  obtain ⟨name, between, wroteName, wrote⟩ := run_bind_eq_ok.mp wrote
  obtain ⟨value, after, wroteValue, same⟩ := run_bind_eq_ok.mp wrote
  obtain ⟨rfl, rfl⟩ := run_pure_eq_ok.mp same
  have restoresEntry (level : Int) (marks : UInt8) : Restores Grid.IsNarrow [] bound value
      (do return Variable.mk entry.name level marks (← Reader.value ⟨version, cuts⟩))
      fun own _ _ => own = [] :=
    Restores.map ((tracks_value (fun _ _ _ narrow => narrow) entry.value fits).read _ _ _ wroteValue 0)
      fun _ _ _ held => held.1
  rw [List.append_assoc]
  refine (passing_name entry.name name (run_lift_eq_ok.mp wroteName).1).andThen ?_
  rintro _ rfl
  change Restores Grid.IsNarrow [] bound _ (do
    let place ←
      if holdsLevels version then pure (← integer, ← byte) else pure (Variable.globalLevel, 0)
    return Variable.mk entry.name place.1 place.2 (← Reader.value ⟨version, cuts⟩)) _
  cases holdsLevels version with
  | true =>
      exact (passes_integer entry.level).andThen fun level _ =>
        (reads_byte entry.marks).passes.andThen fun marks _ => restoresEntry level marks
  | false => exact restoresEntry Variable.globalLevel 0

theorem tracks_anyVariables {free : Nat → Prop} {entries : List Variable} (reversed : List Variable)
    (fit : ∀ entry ∈ entries, entry.value.Within Grid.IsNarrow free) :
    Tracks Grid.IsNarrow [] bound (List.flatten <$> entries.mapM (variableField ⟨version, shared⟩))
      (fun _ => many.go (variableEntry ⟨version, cuts⟩) entries.length reversed)
      fun own _ _ => own = [] := by
  induction entries generalizing bound reversed with
  | nil =>
      intro written bytes later wrote depth
      cases wrote
      have passes : Passes (many.go (variableEntry ⟨version, cuts⟩) 0 reversed) [] fun _ => True :=
        passes_pure trivial
      exact passes.restores.imp fun _ _ _ _ held => held.1
  | cons entry entries ih =>
      rw [flatten_mapM_cons]
      apply (tracks_anyVariable (fit entry List.mem_cons_self)).bind
      rintro _ between result - rfl
      exact ih (result :: reversed) fun other member => fit other (List.mem_cons_of_mem _ member)

theorem restores_anyTable {free : Nat → Prop} {table : List Variable} {count : Bytes}
    {entries : List Bytes} {written later : List Nat} (fit : ∀ entry ∈ table, entry.value.Within Grid.IsNarrow free)
    (wroteCount : countField table.length = .ok count)
    (wroteEntries : (table.mapM (variableField ⟨version, shared⟩)).run written = .ok (entries, later)) :
    Restores Grid.IsNarrow [] bound (count ++ entries.flatten) (counted (variableEntry ⟨version, cuts⟩))
      fun own _ _ => own = [] := by
  have wrote : (List.flatten <$> table.mapM (variableField ⟨version, shared⟩)).run written =
      .ok (entries.flatten, later) := by
    rw [StateT.run_map, wroteEntries]
    rfl
  apply (passing_count _ _ wroteCount).andThen
  rintro _ rfl
  exact tracks_anyVariables [] fit _ _ _ wrote 0

variable {α : Type} {rest : Bytes}

theorem restores_anyRegisters (representable : machine.IsRepresentable) {written : Bytes}
    {later : List Nat}
    (wrote : (valuesFields ⟨version, sharedStorages machine⟩ machine).run [] = .ok (written, later))
    {next : Stack → Value → Bytes → Flags → Variables → Reader α}
    (restores : ∀ bound stack lastX alpha flags bindings,
      Restores Grid.IsNarrow [] bound rest (next stack lastX alpha flags bindings) fun _ _ _ => True) :
    Restores Grid.IsNarrow [] bound (written ++ rest) (do
      let stack ← Reader.stack ⟨version, cuts⟩
      let lastX ← value ⟨version, cuts⟩
      let alpha ← Reader.alpha
      let flags ← Reader.flags
      let bindings ← sound (Variables.ofList (← counted (variableEntry ⟨version, cuts⟩)))
      next stack lastX alpha flags bindings) fun _ _ _ => True := by
  obtain ⟨depth, afterDepth, wroteDepth, wrote⟩ := run_bind_eq_ok.mp wrote
  obtain ⟨levels, afterLevels, wroteLevels, wrote⟩ := run_bind_eq_ok.mp wrote
  obtain ⟨lastX, afterLastX, wroteLastX, wrote⟩ := run_bind_eq_ok.mp wrote
  obtain ⟨alpha, afterAlpha, wroteAlpha, wrote⟩ := run_bind_eq_ok.mp wrote
  obtain ⟨count, afterCount, wroteCount, wrote⟩ := run_bind_eq_ok.mp wrote
  obtain ⟨entries, afterEntries, wroteEntries, same⟩ := run_bind_eq_ok.mp wrote
  obtain ⟨rfl, -⟩ := run_pure_eq_ok.mp same
  have fitStack : ∀ value ∈ machine.stack.values, value.Within Grid.IsNarrow fun _ => True := fun value member =>
    representable.values value (List.mem_append_left _ (List.mem_reverse.mpr member))
  have fitLevels : ∀ value ∈ heldLevels version machine.stack, value.Within Grid.IsNarrow fun _ => True := by
    rw [heldLevels]
    split
    · exact fitStack
    · exact Stack.Within.ofValues fitStack false
  have fitsLastX : machine.lastX.Within Grid.IsNarrow fun _ => True :=
    representable.values _ (List.mem_append_right _ List.mem_cons_self)
  have fitEntries : ∀ entry ∈ heldVariables version machine.bindings,
      entry.value.Within Grid.IsNarrow fun _ => True := fun entry member =>
    representable.values _ (List.mem_append_right _ (List.mem_cons_of_mem _
      (List.mem_map_of_mem ((heldVariables_sublist version machine.bindings).mem member))))
  simp only [List.append_assoc]
  rw [← List.append_assoc depth, ← List.append_assoc (ite _ _ _)]
  apply (restores_stack (fun _ _ _ narrow => narrow) fitLevels (run_lift_eq_ok.mp wroteDepth).1 wroteLevels).bind
  rintro _ boundStack stack - ⟨rfl, -⟩
  apply Restores.bind
    ((tracks_value (fun _ _ _ narrow => narrow) machine.lastX fitsLastX).read _ _ _ wroteLastX 0)
  rintro _ boundLastX lastX - ⟨rfl, -⟩
  apply (passing_alpha machine.alpha _ (run_lift_eq_ok.mp wroteAlpha).1).andThen
  intro alpha _
  apply (reads_flags machine.flags).passes.andThen
  intro flags _
  rw [← List.append_assoc count]
  apply (restores_anyTable fitEntries (run_lift_eq_ok.mp wroteCount).1 wroteEntries).bind
  rintro _ boundTable table - rfl
  apply (passes_sound (Variables.ofList table)).inFront
  intro bindings _
  exact restores boundTable stack lastX alpha flags bindings

/-! ## The whole file -/

theorem restores_anyBody (representable : machine.IsRepresentable) {input place values control : Bytes}
    {later : List Nat}
    (wroteInput : fields [inputFields machine, optionalField (editorFields version) machine.editor,
      optionalField promptFields machine.prompt] = .ok input)
    (wrotePlace : fields [countField machine.program, addressField machine.address] = .ok place)
    (wroteValues : (valuesFields ⟨version, sharedStorages machine⟩ machine).run [] = .ok (values, later))
    (wroteControl : fields [programFields version machine, solverFields machine.solver,
      integratorFields machine.integrator] = .ok control) :
    Restores Grid.IsNarrow [] bound (input ++ (deviceFields version machine ++ (place ++ (values ++ control))))
      (body ⟨version, cuts⟩) fun _ _ _ => True := by
  refine restores_input wroteInput fun _ _ _ _ _ _ _ _ => ?_
  refine restores_devices representable.keys fun _ _ _ _ => restores_place wrotePlace fun _ _ => ?_
  refine restores_anyRegisters representable wroteValues fun _ _ _ _ _ _ => ?_
  refine restores_control wroteControl fun _ _ _ _ _ _ _ _ => ?_
  intro before rest result after holds atBound run
  cases run
  refine ⟨rfl, [], atBound ▸ .nil _, ?_, trivial⟩
  rw [List.append_nil]
  exact holds.withBytes rest

theorem restores_anyFile (representable : machine.IsRepresentable) {platform : String} {bytes : Bytes}
    (wrote : write version platform machine = .ok bytes) :
    Restores Grid.IsNarrow [] bound bytes (file ⟨version, cuts⟩) fun _ _ _ => True :=
  (restores_file_of_body wrote (restores_anyBody representable)).imp fun _ _ _ _ _ => trivial

/-- Where a file is read at all, all of it is read. -/
theorem eq_nil_of_read (representable : machine.IsRepresentable) {platform : String} {bytes : Bytes}
    (wrote : write version platform machine = .ok bytes) {result : Machine} {after : Input}
    (run : (file ⟨version, cuts⟩).run { bytes } = .ok (result, after)) : after.bytes = [] := by
  have restores : Restores Grid.IsNarrow [] 0 bytes (file ⟨version, cuts⟩) fun _ _ _ => True :=
    restores_anyFile representable wrote
  have nothing : Holds Grid.IsNarrow [] ({ bytes := [] } : Input) :=
    ⟨fun _ member => absurd member List.not_mem_nil, fun _ member => absurd member (by simp)⟩
  rw [← List.append_nil bytes] at run
  exact (restores { bytes := [] } [] result after nothing rfl run).1

/-- A reader that is content with the start of a file leaves nothing of it. -/
theorem eq_of_prefix_read (representable : machine.IsRepresentable) {platform : String}
    {bytes front : Bytes} (wrote : write version platform machine = .ok bytes)
    (isStart : front <+: bytes) {result : Machine} {after : Input}
    (run : (file ⟨version, cuts⟩).run { bytes := front } = .ok (result, after)) : front = bytes := by
  obtain ⟨more, rfl⟩ := isStart
  obtain ⟨taken, rfl, again⟩ := (isLocal_file ⟨version, cuts⟩).exists_front run
  have runAll := again (after.bytes ++ more)
  rw [← List.append_assoc] at runAll
  have nothing := eq_nil_of_read representable wrote runAll
  rw [List.append_eq_nil_iff.mp nothing |>.2, List.append_nil]

/-- A file that was written is damaged once it is cut off anywhere. The machine that would load it is
new. -/
theorem load_truncated (representable : machine.IsRepresentable) {platform : String}
    {bytes front : Bytes} (wrote : write version platform machine = .ok bytes)
    (isStart : front <+: bytes) (proper : front ≠ bytes) (generator : Generator) (old : Machine) :
    load version front generator old =
      (.damaged, { Machine.new old.memory generator with calls := .repainted :: old.calls }) := by
  have notRead {cuts : Bool} {result : Machine} {after : Input} :
      (file ⟨version, cuts⟩).run { bytes := front } ≠ .ok (result, after) := fun run =>
    proper (eq_of_prefix_read representable wrote isStart run)
  have refused : read? version front = none := by
    rw [read?]
    split
    · next run => exact absurd run notRead
    · cases run : (file ⟨version, true⟩).run { bytes := front } with
      | error damage => rfl
      | ok pair => exact absurd run notRead
    · rfl
  rw [load, if_neg (Nat.not_lt.mpr (write_eq_ok wrote).1), refused]
  rfl

end

/-- The file of a machine that shares arrays, without its last byte. -/
theorem load_truncated_nested :
    nestedTwice.IsRepresentable ∧ ∃ bytes : Bytes,
      write currentVersion "linux" nestedTwice = .ok bytes ∧
      bytes.dropLast <+: bytes ∧ bytes.dropLast ≠ bytes ∧
      load currentVersion bytes.dropLast default default =
        (.damaged, { Machine.initial default with calls := [.repainted] }) := by
  have representable := isStorable_nestedTwice.isRepresentable
  obtain ⟨_, _, _, _, contents, _, _, written, _⟩ :=
    keeps_body isStorable_nestedTwice { bytes := [] } rfl
  have shorter {bytes : Bytes} (wrote : write currentVersion "linux" nestedTwice = .ok bytes) :
      bytes.dropLast ≠ bytes := by
    intro same
    have lengths := congrArg List.length same
    obtain ⟨-, _, _, _, _, _, -, -, -, -, rfl⟩ := write_eq_ok wrote
    simp [StateFile.signature, magic] at lengths
  refine ⟨representable, _, written "linux", List.dropLast_prefix _, shorter (written "linux"), ?_⟩
  exact load_truncated representable (written "linux") (List.dropLast_prefix _)
    (shorter (written "linux")) default default

end StateFile

end Keystroke
