import Mathlib
import Keystroke.Proofs.Instructions
import Keystroke.Proofs.StateFile.Fields

/-!
# Parts of state files

The parts of a machine that hold no arrays are read back as they were written, each with what its fields
can hold.
-/

namespace Keystroke

/-! ## What fields can hold -/

/-- A text that fits a field with a length of one byte. -/
def Text.IsShort (text : String) : Prop := (Text.toBytes text).length ≤ StateFile.maximalShortLength

instance (text : String) : Decidable (Text.IsShort text) :=
  inferInstanceAs (Decidable ((Text.toBytes text).length ≤ StateFile.maximalShortLength))

/-- A signed number of thirty-two bits. -/
def IsInt32 (integer : Int) : Prop := -0x80000000 ≤ integer ∧ integer < 0x80000000

instance (integer : Int) : Decidable (IsInt32 integer) :=
  inferInstanceAs (Decidable (-0x80000000 ≤ integer ∧ integer < 0x80000000))

/-- A word of thirty-two bits. -/
def IsWord32 (word : Nat) : Prop := word < 0x100000000

instance (word : Nat) : Decidable (IsWord32 word) :=
  inferInstanceAs (Decidable (word < 0x100000000))

/-- An address that fits a signed number; the top of a program does. -/
def IsAddress (address : Option Nat) : Prop := ∀ place ∈ address, place < 0x80000000

/-- What holds of the matrix editor. -/
structure Editor.IsStorable (editor : Editor) : Prop where
  name : Variable.checkName editor.name = .ok ()
  level : IsInt32 editor.level
  row : IsWord32 editor.row
  col : IsWord32 editor.col
  depth : IsWord32 editor.path.length
  path : ∀ index ∈ editor.path, IsWord32 index

/-- Nothing is asked for a literal. -/
theorem Machine.ask_literal (machine : Machine) {argument : Argument}
    (isLiteral : argument.isLiteral) :
    (ask argument).on machine = (fail .invalidData, machine) := by
  cases argument <;> cases isLiteral
  rfl

/-- What holds of the question of a program. -/
structure Prompt.IsStorable (prompt : Prompt) : Prop where
  /-- By `Machine.ask_literal` nothing else is asked for. -/
  typed : (⟨.input, prompt.argument⟩ : Instruction).IsTyped
  encodable : ∃ bytes, Codec.encode ⟨.input, prompt.argument⟩ = .ok bytes
  label : Text.IsShort prompt.label

/-- What holds of a return frame in a library. -/
structure Frame.IsStorable (library : Library) (frame : Frame) : Prop where
  address : IsAddress frame.address
  place : ∀ index, frame.caller = .program index →
    StateFile.Reader.isPlace library index frame.address = true

/-- What holds of the return stack in a library. -/
structure Returns.IsStorable (library : Library) (returns : Returns) : Prop where
  limit : returns.limit = maximalReturns
  overflow : returns.overflow = .returnStackFull
  depth : returns.depth ≤ maximalReturns
  frames : ∀ frame ∈ returns.items, frame.IsStorable library

/-- What holds of the solver. -/
structure Solver.IsStorable (solver : Solver) : Prop where
  chosenFunction : solver.chosenFunction.length ≤ StateFile.maximalShortLength
  function : solver.function.length ≤ StateFile.maximalShortLength
  variableName : solver.variableName.length ≤ StateFile.maximalShortLength
  program : IsWord32 solver.program
  address : IsAddress solver.address
  patience : IsInt32 solver.patience

/-- What holds of the integrator. -/
structure Integrator.IsStorable (integrator : Integrator) : Prop where
  chosenFunction : integrator.chosenFunction.length ≤ StateFile.maximalShortLength
  function : integrator.function.length ≤ StateFile.maximalShortLength
  variableName : integrator.variableName.length ≤ StateFile.maximalShortLength
  program : IsWord32 integrator.program
  address : IsAddress integrator.address
  pass : IsWord32 integrator.pass
  taken : IsWord32 integrator.taken
  filled : IsWord32 integrator.filled
  wanted : IsWord32 integrator.wanted

namespace StateFile

open Reader

/-! ## What is being typed -/

theorem keeps_task (task : Option Task)
    (fits : ∀ next, task = some (.printingCatalog next) → IsWord32 next) :
    Keeps (taskField task) Reader.task task := by
  match task with
  | none => exact ⟨_, rfl, (reads_byte noTask).then (Reads.pure none)⟩
  | some .awaitingKey =>
      exact ⟨_, rfl, (reads_byte awaitingKeyTask).then (Reads.pure (some Task.awaitingKey))⟩
  | some (.printingCatalog next) =>
      have small := fits next rfl
      refine ⟨printingTask :: word32Field next, ?_, (reads_byte printingTask).bind
        ((reads_word32 small).then (Reads.pure (some (Task.printingCatalog next))))⟩
      rw [taskField, countField_eq small]
      rfl

theorem reads_pending (pending : Option Opcode) :
    Reads Reader.pending (word16Field ((pending.map Opcode.code).getD noPending)) pending := by
  cases pending with
  | none => exact (reads_word16 (by decide)).then (Reads.pure none)
  | some opcode =>
      have bound := opcode.code_lt
      have small : opcode.code < 0x10000 := bound.trans (by decide)
      have isCode : opcode.code ≠ noPending := (bound.trans (by decide)).ne
      refine (reads_word16 small).then ?_
      rw [if_neg isCode]
      exact (reads_present opcode.ofCode?_code).map some

theorem keeps_name {name : Bytes} (named : Variable.checkName name = .ok ()) :
    Keeps (shortField name) Reader.name name := by
  have short : name.length ≤ Variable.maximalNameLength := by
    simp only [Variable.checkName] at named
    split at named
    · cases named
    · split at named
      · cases named
      · omega
  obtain ⟨bytes, written, reads⟩ := keeps_short (short.trans (by decide))
  exact ⟨bytes, written, reads.then ((reads_sound named).bind (Reads.pure name))⟩

theorem keeps_editor (version : Nat) {editor : Editor} (storable : editor.IsStorable) :
    Keeps (editorFields version editor) (Reader.editor version) (editor.inLayout version) := by
  refine (reads_flag editor.isEditing).keeps.cons ((keeps_name storable.name).cons ?_)
  refine (reads_integer storable.level.1 storable.level.2).keeps.cons ?_
  refine (keeps_count storable.row).cons ((keeps_count storable.col).cons ?_)
  rw [Editor.inLayout]
  cases holdsLevels version with
  | true =>
      have keepsPath : Keeps
          (fields (countField editor.path.length :: editor.path.map countField))
          (counted (word 4)) editor.path :=
        keeps_counted editor.path storable.depth
          fun index member => keeps_count (storable.path index member)
      exact keepsPath.cons (Reads.pure editor).keeps
  | false =>
      have keepsNone : Keeps (.ok []) (pure [] : Reader (List Nat)) [] := (Reads.pure []).keeps
      have keepsPlain : Keeps (fields []) (pure { editor with path := [] } : Reader Editor)
          { editor with path := [] } := (Reads.pure _).keeps
      exact keepsNone.cons keepsPlain

theorem keeps_prompt {prompt : Prompt} (storable : prompt.IsStorable) :
    Keeps (promptFields prompt) Reader.prompt prompt := by
  obtain ⟨instruction, encoded⟩ := storable.encodable
  obtain ⟨code, textFollows, argument, -, -, complete, decoded⟩ := Codec.decode_encode encoded
  have same : Codec.storedArgument .input prompt.argument = prompt.argument :=
    Codec.storedArgument_of_typed storable.typed
  obtain ⟨bytes, written, reads⟩ :
      Keeps (fields [longField instruction, shortTextField prompt.label]) Reader.prompt prompt := by
    refine (keeps_long (Codec.encode_length_lt encoded)).cons
      (.require_bind ?_ (.require_bind ?_ ?_))
    · rw [beq_iff_eq]
      exact complete
    · rw [decoded]
      rfl
    · rw [decoded, same]
      exact (keeps_shortText storable.label).cons
        (Reads.pure (Prompt.mk prompt.argument prompt.label)).keeps
  refine ⟨bytes, ?_, reads⟩
  rw [promptFields, encoded]
  exact written

/-! ## Devices -/

theorem reads_generator (version : Nat) (generator : Generator) :
    Reads (Reader.generator version) (generatorField version generator)
      (generator.inLayout version) := by
  rw [Reader.generator, generatorField, Generator.inLayout]
  cases holdsGenerator version with
  | true =>
      exact (reads_word64 generator.first).bind
        ((reads_word64 generator.second).map (Generator.mk generator.first))
  | false => exact (reads_real _).map Generator.ofSeed

theorem reads_key (key : Key) : Reads Reader.key (flagField key.isShifted ++ [key.code]) key :=
  (reads_flag key.isShifted).bind ((reads_byte key.code).map (Key.mk key.isShifted))

theorem reads_keys {queue : KeyQueue} (fits : queue.keys.length ≤ KeyQueue.capacity) :
    Reads Reader.keys
      (queue.keys.length.toUInt8 ::
        queue.keys.flatMap fun key => flagField key.isShifted ++ [key.code]) queue := by
  have length : queue.keys.length.toUInt8.toNat = queue.keys.length :=
    toNat_shortLength (fits.trans (by decide))
  have reads := reads_many queue.keys fun key _ => reads_key key
  refine (reads_byte _).bind ?_
  rw [length]
  exact reads.then (.require_bind (decide_eq_true fits) (Reads.pure queue))

theorem toList_length (display : Display) :
    display.toList.length = Display.blank.toList.length := by
  simp [Display.toList]

theorem ofBytes_toList (display : Display) : Display.ofBytes display.toList = .ok display := by
  simp [Display.ofBytes, Display.toList]
  rfl

theorem keeps_alpha {alpha : Bytes} (fits : alpha.length ≤ Machine.maximalAlphaLength) :
    Keeps (shortField alpha) Reader.alpha alpha := by
  obtain ⟨bytes, written, reads⟩ := keeps_short (fits.trans (by decide))
  exact ⟨bytes, written, reads.then (.require_bind (decide_eq_true fits) (Reads.pure alpha))⟩

theorem reads_flags (flags : Flags) :
    Reads Reader.flags (flags.toList.length.toUInt8 :: flags.toList.flatMap flagField) flags := by
  have size : flags.toList.length = 100 := by simp [Flags.toList]
  have isFlags : Flags.ofList flags.toList = .ok flags := by
    simp [Flags.ofList, Flags.toList]
    rfl
  have length : flags.toList.length.toUInt8.toNat = flags.toList.length := by
    rw [size]
    rfl
  have reads := reads_many flags.toList fun condition _ => reads_flag condition
  refine (reads_byte _).bind ?_
  rw [length]
  exact reads.then (reads_sound isFlags)

/-! ## Programs and calls -/

theorem bits_first (first second : Bool) : (bits first second &&& 1 != 0) = first := by
  cases first <;> cases second <;> decide

theorem bits_second (first second : Bool) : (bits first second &&& 2 != 0) = second := by
  cases first <;> cases second <;> decide

theorem keeps_program {program : Program} (sound : Program.check program.text 0 false = .ok ())
    (fits : IsWord32 program.text.length) :
    Keeps (programField program) Reader.program program := by
  obtain ⟨bytes, written, reads⟩ := keeps_long fits
  have isProgram : Program.ofBytes program.text
      (bits program.isLocked program.cachesEmpty &&& cachesEmptyBit != 0)
      (bits program.isLocked program.cachesEmpty &&& lockedBit != 0) = .ok program := by
    rw [Program.ofBytes, sound, lockedBit, cachesEmptyBit, bits_first, bits_second]
    rfl
  refine ⟨bytes ++ [bits program.isLocked program.cachesEmpty], ?_,
    reads.bind ((reads_byte _).then (reads_sound isProgram))⟩
  rw [programField, written]
  rfl

theorem ofCode?_code (caller : Caller) : Caller.ofCode? caller.code = some caller := by
  cases caller with
  | program index => simp [Caller.code, Caller.ofCode?]
  | solver | integrator => rfl

theorem withBits_bits (frame : Frame) :
    ({ caller := frame.caller, address := frame.address } : Frame).withBits frame.bits = frame := by
  have fourBits (first second third fourth : Bool) (all : UInt8)
      (isAll : all = (if first then 1 else 0) ||| (if second then 2 else 0) |||
        (if third then 4 else 0) ||| (if fourth then 8 else 0)) :
      (all &&& 1 != 0) = first ∧ (all &&& 2 != 0) = second ∧ (all &&& 4 != 0) = third ∧
        (all &&& 8 != 0) = fourth := by
    subst isAll
    revert first second third fourth
    decide
  obtain ⟨parksEditor, savesStack, liftDisabled, stops⟩ := fourBits frame.parksEditor
    frame.savesStack frame.liftDisabled frame.stops frame.bits rfl
  rw [Frame.withBits, parksEditor, savesStack, liftDisabled, stops]

theorem lt_count_of_isPlace {library : Library} {index : Nat} {address : Option Nat}
    (place : isPlace library index address = true) : index < library.count := by
  by_contra outside
  have absent : library.get? index = none := List.getElem?_eq_none (Nat.le_of_not_lt outside)
  simp [isPlace, absent] at place

theorem isInt32_code {library : Library} {frame : Frame} (few : library.count ≤ 0x80000000)
    (storable : frame.IsStorable library) : IsInt32 frame.caller.code := by
  cases isCaller : frame.caller with
  | program index =>
      have inside := lt_count_of_isPlace (storable.place index isCaller)
      simp only [IsInt32, Caller.code]
      omega
  | solver | integrator => decide

theorem keeps_frame (version : Nat) {library : Library} {frame : Frame}
    (few : library.count ≤ 0x80000000) (storable : frame.IsStorable library) :
    Keeps (frameField version frame) (Reader.frame version library) (frame.inLayout version) := by
  have caller := isInt32_code few storable
  obtain ⟨address, written, reads⟩ := keeps_address storable.address
  let plain : Frame := { caller := frame.caller, address := frame.address }
  let bits : Bytes := if holdsLevels version then [frame.bits] else []
  refine ⟨integerField frame.caller.code ++ address ++ bits, ?_, ?_⟩
  · rw [frameField, written]
    rfl
  · rw [List.append_assoc]
    refine (reads_integer caller.1 caller.2).bind ?_
    refine (reads_present (ofCode?_code frame.caller)).before (reads.bind ?_)
    have readsBits : Reads
        (if holdsLevels version then do return plain.withBits (← byte) else return plain) bits
        (frame.inLayout version) := by
      dsimp only [bits]
      rw [Frame.inLayout]
      cases holdsLevels version with
      | true =>
          have reads := (reads_byte frame.bits).map plain.withBits
          rwa [withBits_bits] at reads
      | false => exact Reads.pure plain
    dsimp only [plain] at readsBits
    cases isCaller : frame.caller with
    | program index =>
        rw [isCaller] at readsBits
        exact readsBits.require_bind (storable.place index isCaller)
    | solver | integrator =>
        rw [isCaller] at readsBits
        exact readsBits

theorem foldlM_push (items : List Frame) (returns : Returns)
    (fits : returns.depth + items.length ≤ returns.limit) :
    items.foldlM BoundedStack.push returns =
      .ok { returns with items := items.reverse ++ returns.items } := by
  induction items generalizing returns with
  | nil => rfl
  | cons item items ih =>
      have room : returns.push item = .ok { returns with items := item :: returns.items } := by
        simp only [List.length_cons] at fits
        rw [BoundedStack.push, BoundedStack.isFull, if_neg]
        rw [decide_eq_true_eq]
        omega
      have next := ih { returns with items := item :: returns.items } (by
        simp only [BoundedStack.depth, List.length_cons] at fits ⊢
        omega)
      rw [List.foldlM_cons, room, List.reverse_cons, List.append_assoc]
      exact next

theorem keeps_returns (version : Nat) {library : Library} {returns : Returns}
    (few : library.count ≤ 0x80000000) (storable : Returns.IsStorable library returns) :
    Keeps (fields (countField returns.depth :: returns.items.reverse.map (frameField version)))
      (Reader.returns version library) (returns.inLayout version) := by
  let kept : List Frame := returns.items.reverse.map (Frame.inLayout version)
  have same : returns.inLayout version =
      { Returns.initial with items := kept.reverse ++ [] } := by
    obtain ⟨limit, overflow, items⟩ := returns
    obtain rfl : limit = maximalReturns := storable.limit
    obtain rfl : overflow = .returnStackFull := storable.overflow
    simp [kept, Returns.inLayout, Returns.initial, BoundedStack.empty]
  have pushed : kept.foldlM BoundedStack.push Returns.initial = .ok (returns.inLayout version) := by
    rw [foldlM_push]
    · exact congrArg Except.ok same.symm
    · rw [List.length_map, List.length_reverse]
      simpa [Returns.initial, BoundedStack.empty, BoundedStack.depth] using storable.depth
  have fits : returns.items.reverse.length < 0x100000000 := by
    rw [List.length_reverse]
    exact storable.depth.trans_lt (by decide)
  obtain ⟨bytes, written, reads⟩ := keeps_counted_map returns.items.reverse fits
    fun frame member =>
      keeps_frame version few (storable.frames frame (List.mem_reverse.mp member))
  rw [List.length_reverse] at written
  exact ⟨bytes, written, reads.then (reads_sound pushed)⟩

/-! ## Solver and integrator -/

theorem keeps_solver {solver : Solver} (storable : solver.IsStorable) :
    Keeps (solverFields solver) Reader.solver solver := by
  have readsPatience := reads_integer storable.patience.1 storable.patience.2
  refine (keeps_short storable.chosenFunction).cons ((keeps_short storable.function).cons ?_)
  refine (keeps_short storable.variableName).cons ((reads_flag solver.keepsRunning).keeps.cons ?_)
  refine (keeps_count storable.program).cons ((keeps_address storable.address).cons ?_)
  simp only [List.flatMap_cons, List.flatMap_nil, List.append_assoc, List.append_nil,
    List.cons_append, List.nil_append, fields_ok_cons, fields_nil]
  refine ⟨_, rfl, (reads_byte solver.stage).bind ((reads_byte solver.sampled).bind ?_)⟩
  refine (reads_flag solver.alternates).bind (readsPatience.bind ?_)
  -- Eleven numbers.
  iterate 10 refine (reads_real _).bind ?_
  exact (reads_real _).map _

theorem reads_reals {count : Nat} (numbers : Vector Binary64 count) :
    Reads (reals count) (numbers.toList.flatMap realField) numbers := by
  have reads := reads_many numbers.toList fun x _ => reads_real x
  rw [Vector.length_toList] at reads
  refine reads.then ?_
  have size : numbers.toList.toArray.size = count := by simp
  rw [dif_pos size]
  have same : (⟨numbers.toList.toArray, size⟩ : Vector Binary64 count) = numbers := by
    simp
    rfl
  rw [same]
  exact Reads.pure numbers

theorem keeps_integrator {integrator : Integrator} (storable : integrator.IsStorable) :
    Keeps (integratorFields integrator) Reader.integrator integrator := by
  obtain ⟨chosenFunction, writtenChosen, readsChosen⟩ := keeps_short storable.chosenFunction
  obtain ⟨function, writtenFunction, readsFunction⟩ := keeps_short storable.function
  obtain ⟨variableName, writtenName, readsName⟩ := keeps_short storable.variableName
  obtain ⟨address, writtenAddress, readsAddress⟩ := keeps_address storable.address
  simp only [integratorFields, writtenChosen, writtenFunction, writtenName, writtenAddress,
    countField_eq storable.program, countField_eq storable.pass, countField_eq storable.taken,
    countField_eq storable.filled, countField_eq storable.wanted,
    List.flatMap_cons, List.flatMap_nil, List.flatMap_append, List.append_assoc, List.append_nil,
    List.cons_append, List.nil_append, fields_ok_cons, fields_nil]
  refine ⟨_, rfl, ?_⟩
  refine readsChosen.bind (readsFunction.bind (readsName.bind ?_))
  refine (reads_flag integrator.keepsRunning).bind ((reads_word32 storable.program).bind ?_)
  refine readsAddress.bind ((reads_byte integrator.stage).bind ?_)
  iterate 6 refine (reads_real _).bind ?_
  refine (reads_word32 storable.pass).bind ((reads_word32 storable.taken).bind ?_)
  refine (reads_word32 storable.filled).bind ((reads_real integrator.stepSize).bind ?_)
  refine (reads_real integrator.sum).bind ((reads_reals integrator.column).bind ?_)
  refine (reads_reals integrator.table).bind ((reads_word32 storable.wanted).bind ?_)
  iterate 4 refine (reads_real _).bind ?_
  exact (reads_real _).map _

/-! ## Both ends of a file -/

theorem reads_signature {version : Nat} (fits : IsWord32 version) :
    Reads (Reader.signature version) (StateFile.signature version) () := by
  refine (reads_bytes magic).bind (.require_bind (beq_self_eq_true magic) ?_)
  exact (reads_word32 fits).then (reads_require (beq_self_eq_true version))

theorem reads_platform_of_nonzero {bytes : Bytes} {limit : Nat} (fits : bytes.length ≤ limit)
    (nonzero : ∀ byte ∈ bytes, byte ≠ 0) : Reads (Reader.platform limit) (bytes ++ [0]) () := by
  induction bytes generalizing limit with
  | nil =>
      cases limit with
      | zero => exact (reads_byte 0).then (reads_require rfl)
      | succ limit => exact (reads_byte 0).then (Reads.pure ())
  | cons byte bytes ih =>
      cases limit with
      | zero => cases fits
      | succ limit =>
          have readsRest := ih (Nat.le_of_succ_le_succ fits) fun other member =>
            nonzero other (List.mem_cons_of_mem _ member)
          refine (reads_byte byte).bind ?_
          rw [if_pos (nonzero byte List.mem_cons_self)]
          exact readsRest

theorem reads_platform {platform : String}
    (fits : (Text.toBytes platform).length ≤ maximalPlatformLength) :
    Reads (Reader.platform maximalPlatformLength) (platformField platform) () := by
  refine reads_platform_of_nonzero ?_ ?_
  · rwa [List.length_map]
  · intro byte member
    obtain ⟨original, -, rfl⟩ := List.mem_map.mp member
    split
    · decide
    · assumption

end StateFile

end Keystroke
