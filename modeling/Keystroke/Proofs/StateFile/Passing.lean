import Mathlib
import Keystroke.Proofs.StateFile.Parts

/-!
# Fields that may be refused

A machine need not be one that a state file can hold. Its file may still be written, and a reader may
refuse it; but where a field is read at all, the reader takes the bytes that were written for it and no
others, so that what stands behind it is read from its start. The law composes along a sequence of fields.
-/

namespace Keystroke.Caller

/-- The number of a calling program is not read as one of the two that stand for the solver and the
integrator, which are the last but two numbers that a field of four bytes can hold. -/
def IsDistinct (caller : Caller) : Prop := ∀ index, caller = .program index → index < 0xFFFFFFFD

/-- A caller that is read is the one that was written, if its number is no other's. -/
theorem eq_of_ofCode?_bmod {caller result : Caller} (distinct : caller.IsDistinct)
    (found : Caller.ofCode? (caller.code.bmod 0x100000000) = some result) : result = caller := by
  have sameCode (small : caller.code.bmod 0x100000000 = caller.code) : result = caller := by
    rw [small, StateFile.ofCode?_code] at found
    exact (Option.some.inj found).symm
  cases caller with
  | solver | integrator => exact sameCode (by decide)
  | program index =>
      have below := distinct index rfl
      by_cases fits : index < 0x80000000
      · refine sameCode ?_
        rw [Caller.code, Int.bmod_def]
        omega
      · have negative : (Caller.program index).code.bmod 0x100000000 = index - 0x100000000 := by
          rw [Caller.code, Int.bmod_def]
          omega
        rw [negative, Caller.ofCode?, if_neg (by omega), if_neg (by omega), if_neg (by omega)] at found
        cases found

end Keystroke.Caller

namespace Keystroke.StateFile

open Reader

/-- If a reader succeeds on these bytes, whatever follows them, it takes them and no others, remembers
nothing, and gives a result with a property. -/
def Passes {α : Type} (reader : Reader α) (bytes : Bytes) (property : α → Prop) : Prop :=
  ∀ (before : Input) rest result after,
    reader.run { before with bytes := bytes ++ rest } = .ok (result, after) →
      after = { before with bytes := rest } ∧ property result

/-- If a field can be written, it passes. -/
def Passing {α : Type} (field : Outcome Bytes) (reader : Reader α) (property : α → Prop) : Prop :=
  ∀ bytes, field = .ok bytes → Passes reader bytes property

section

variable {α β : Type} {property : α → Prop} {final : β → Prop}

/-! ## Sequences -/

theorem Reads.passes {reader : Reader α} {bytes : Bytes} {value : α}
    (reads : Reads reader bytes value) : Passes reader bytes (· = value) := by
  intro before rest result after run
  rw [reads before rest] at run
  cases run
  exact ⟨rfl, rfl⟩

theorem Passes.imp {reader : Reader α} {bytes : Bytes} {weaker : α → Prop}
    (passes : Passes reader bytes property) (weaken : ∀ result, property result → weaker result) :
    Passes reader bytes weaker := fun before rest result after run =>
  (passes before rest result after run).imp_right (weaken result)

theorem Passes.bind {reader : Reader α} {next : α → Reader β} {first second : Bytes}
    (passes : Passes reader first property)
    (passesNext : ∀ result, property result → Passes (next result) second final) :
    Passes (reader >>= next) (first ++ second) final := by
  intro before rest result after run
  rw [StateT.run_bind, List.append_assoc] at run
  rcases ran : reader.run { before with bytes := first ++ (second ++ rest) } with _ | ⟨value, between⟩
  · rw [ran] at run
    cases run
  · rw [ran] at run
    obtain ⟨rfl, holds⟩ := passes before _ value between ran
    exact passesNext value holds before rest result after run

/-- What takes no bytes behind a field. -/
theorem Passes.then {reader : Reader α} {next : α → Reader β} {bytes : Bytes}
    (passes : Passes reader bytes property)
    (passesNext : ∀ result, property result → Passes (next result) [] final) :
    Passes (reader >>= next) bytes final := by
  have both := passes.bind passesNext
  rwa [List.append_nil] at both

/-- What takes no bytes in front of a field. -/
theorem Passes.before {reader : Reader α} {next : α → Reader β} {bytes : Bytes}
    (passes : Passes reader [] property)
    (passesNext : ∀ result, property result → Passes (next result) bytes final) :
    Passes (reader >>= next) bytes final :=
  passes.bind passesNext

theorem passes_pure {result : α} (holds : property result) :
    Passes (pure result) [] property := by
  intro before rest last after run
  cases run
  exact ⟨rfl, holds⟩

theorem Passes.map {reader : Reader α} {bytes : Bytes} (passes : Passes reader bytes property)
    {f : α → β} (becomes : ∀ result, property result → final (f result)) :
    Passes (do return f (← reader)) bytes final :=
  passes.then fun result holds => passes_pure (becomes result holds)

theorem passes_refuse {bytes : Bytes} : Passes (refuse : Reader α) bytes property := by
  intro before rest result after run
  cases run

theorem passes_require (condition : Bool) : Passes (require condition) [] fun _ => condition = true := by
  cases condition with
  | false => exact passes_refuse
  | true => exact passes_pure rfl

theorem Passes.require_bind {condition : Bool} {next : Reader β} {bytes : Bytes}
    (passes : condition = true → Passes next bytes final) :
    Passes (do require condition; next) bytes final :=
  (passes_require condition).before fun _ => passes

theorem passes_sound (outcome : Outcome α) :
    Passes (sound outcome) [] fun result => outcome = .ok result := by
  cases outcome with
  | error error => exact passes_refuse
  | ok value => exact passes_pure rfl

theorem passes_present (found : Option α) :
    Passes (present found) [] fun result => found = some result := by
  cases found with
  | none => exact passes_refuse
  | some value => exact passes_pure rfl

/-! ## Words -/

theorem passes_word (count word : Nat) :
    Passes (Reader.word count) (Codec.wordBytes count word) fun _ => True := by
  have reads := (reads_bytes (Codec.wordBytes count word)).map Codec.wordOf
  rw [Codec.wordBytes_length] at reads
  exact reads.passes.imp fun _ _ => trivial

theorem passes_integer (integer : Int) :
    Passes Reader.integer (integerField integer) fun _ => True :=
  (passes_word 4 _).map fun _ _ => trivial

/-! ## Fields with a length -/

theorem passing_ok {reader : Reader α} {bytes : Bytes} (passes : Passes reader bytes property) :
    Passing (.ok bytes) reader property := by
  rintro _ ⟨⟩
  exact passes

theorem Keeps.passing {field : Outcome Bytes} {reader : Reader α} {value : α}
    (keeps : Keeps field reader value) : Passing field reader (· = value) := by
  obtain ⟨bytes, written, reads⟩ := keeps
  subst written
  exact passing_ok reads.passes

theorem Passing.imp {field : Outcome Bytes} {reader : Reader α} {weaker : α → Prop}
    (passing : Passing field reader property) (weaken : ∀ result, property result → weaker result) :
    Passing field reader weaker := fun bytes written => (passing bytes written).imp weaken

theorem Passing.then {field : Outcome Bytes} {reader : Reader α} {next : α → Reader β}
    (passing : Passing field reader property)
    (passesNext : ∀ result, property result → Passes (next result) [] final) :
    Passing field (reader >>= next) final := fun bytes written =>
  (passing bytes written).then passesNext

/-- A field that is kept if it is written at all. -/
theorem passing_of_fits {condition : Prop} {field : Outcome Bytes} {reader : Reader α} {value : α}
    (fits : ∀ bytes, field = .ok bytes → condition)
    (keeps : condition → Keeps field reader value) : Passing field reader (· = value) :=
  fun bytes written => (keeps (fits bytes written)).passing bytes written

theorem passing_count (count : Nat) : Passing (countField count) (Reader.word 4) (· = count) := by
  refine passing_of_fits (fun bytes written => ?_) keeps_count
  by_contra large
  rw [countField, if_neg large] at written
  cases written

theorem passing_short (bytes : Bytes) : Passing (shortField bytes) short (· = bytes) := by
  refine passing_of_fits (fun _ written => ?_) keeps_short
  by_contra long
  rw [shortField, if_neg long] at written
  cases written

theorem passing_long (bytes : Bytes) : Passing (longField bytes) long (· = bytes) := by
  refine passing_of_fits (fun _ written => ?_) keeps_long
  by_contra large
  rw [longField, countField, if_neg large] at written
  cases written

theorem passing_shortText (text : String) : Passing (shortTextField text) shortText (· = text) :=
  (passing_short _).then fun bytes same =>
    (passes_present _).imp fun found isFound => by
      rw [same, Text.ofBytes?_toBytes] at isFound
      exact (Option.some.inj isFound).symm

theorem passing_name (name : Bytes) : Passing (shortField name) Reader.name (· = name) :=
  (passing_short name).then fun _ same => (passes_sound _).before fun _ _ => passes_pure same

theorem passing_address (address : Option Nat) :
    Passing (addressField address) Reader.address (· = address) := by
  refine passing_of_fits (fun _ written place isPlace => ?_) keeps_address
  obtain rfl : address = some place := isPlace
  by_contra large
  rw [addressField, if_neg large] at written
  cases written

/-! ## Several fields -/

theorem fields_cons_eq_ok {field : Outcome Bytes} {rest : List (Outcome Bytes)} {bytes : Bytes}
    (written : fields (field :: rest) = .ok bytes) :
    ∃ first others, field = .ok first ∧ fields rest = .ok others ∧ bytes = first ++ others := by
  cases field with
  | error error => cases written
  | ok first =>
      rw [fields_ok_cons] at written
      cases isRest : fields rest with
      | error error =>
          rw [isRest] at written
          cases written
      | ok others =>
          rw [isRest] at written
          cases written
          exact ⟨first, others, rfl, rfl, rfl⟩

theorem fields_append_eq_ok {parts others : List (Outcome Bytes)} {bytes : Bytes}
    (written : fields (parts ++ others) = .ok bytes) :
    ∃ first second, fields parts = .ok first ∧ fields others = .ok second ∧ bytes = first ++ second := by
  induction parts generalizing bytes with
  | nil => exact ⟨[], bytes, rfl, written, rfl⟩
  | cons field parts ih =>
      obtain ⟨first, rest, writtenFirst, writtenRest, rfl⟩ := fields_cons_eq_ok written
      obtain ⟨more, second, writtenMore, writtenOthers, rfl⟩ := ih writtenRest
      exact ⟨first ++ more, second, fields_cons_ok writtenFirst writtenMore, writtenOthers,
        (List.append_assoc ..).symm⟩

theorem Passing.cons {field : Outcome Bytes} {rest : List (Outcome Bytes)} {reader : Reader α}
    {next : α → Reader β} (passing : Passing field reader property)
    (passingRest : ∀ result, property result → Passing (fields rest) (next result) final) :
    Passing (fields (field :: rest)) (reader >>= next) final := by
  intro bytes written
  obtain ⟨first, others, writtenFirst, writtenRest, rfl⟩ := fields_cons_eq_ok written
  exact (passing first writtenFirst).bind fun result holds => passingRest result holds others writtenRest

theorem passing_nil {reader : Reader α} (passes : Passes reader [] property) :
    Passing (fields []) reader property := by
  rintro _ ⟨⟩
  exact passes

/-- A field that holds several things. -/
theorem passing_front {first : Bytes} {rest : List (Outcome Bytes)} {reader : Reader α}
    (passes : ∀ others, fields rest = .ok others → Passes reader (first ++ others) property) :
    Passing (fields (.ok first :: rest)) reader property := by
  intro bytes written
  obtain ⟨_, others, ⟨⟩, writtenRest, rfl⟩ := fields_cons_eq_ok written
  exact passes others writtenRest

theorem Passing.last {field : Outcome Bytes} {reader : Reader α}
    (passing : Passing field reader property) : Passing (fields [field]) reader property := by
  intro bytes written
  obtain ⟨first, others, writtenFirst, writtenRest, rfl⟩ := fields_cons_eq_ok written
  obtain rfl : [] = others := Except.ok.inj writtenRest
  rw [List.append_nil]
  exact passing first writtenFirst

theorem passing_many_go {γ : Type} {field : γ → Outcome Bytes} {reader : Reader α}
    {relates : γ → α → Prop} (values : List γ) (reversed : List α)
    (passing : ∀ value ∈ values, Passing (field value) reader (relates value)) :
    Passing (fields (values.map field)) (many.go reader values.length reversed) fun results =>
      ∃ read, results = reversed.reverse ++ read ∧ List.Forall₂ relates values read := by
  induction values generalizing reversed with
  | nil => exact passing_nil (passes_pure ⟨[], (List.append_nil _).symm, .nil⟩)
  | cons value values ih =>
      refine (passing value List.mem_cons_self).cons fun result holds => ?_
      refine (ih (result :: reversed) fun other member =>
        passing other (List.mem_cons_of_mem _ member)).imp ?_
      rintro _ ⟨read, rfl, related⟩
      exact ⟨result :: read, by simp, .cons holds related⟩

theorem passing_counted {γ : Type} {field : γ → Outcome Bytes} {reader : Reader α}
    {relates : γ → α → Prop} (values : List γ)
    (passing : ∀ value ∈ values, Passing (field value) reader (relates value)) :
    Passing (fields (countField values.length :: values.map field)) (counted reader)
      (List.Forall₂ relates values) := by
  refine (passing_count values.length).cons ?_
  rintro _ rfl
  refine (passing_many_go values [] passing).imp ?_
  rintro _ ⟨read, rfl, related⟩
  exact related

theorem passing_optional {γ : Type} {field : γ → Outcome Bytes} {reader : Reader α}
    {relates : γ → α → Prop} (optional : Option γ)
    (passing : ∀ value ∈ optional, Passing (field value) reader (relates value)) :
    Passing (optionalField field optional) (Reader.optional reader) (Option.Rel relates optional) := by
  cases optional with
  | none => exact passing_ok ((reads_flag false).passes.then fun _ same => by
      subst same
      exact passes_pure .none)
  | some value =>
      intro bytes written
      cases isWritten : field value with
      | error error => simp [optionalField, isWritten] at written
      | ok contents =>
          rw [optionalField, isWritten] at written
          cases written
          refine (reads_flag true).passes.bind ?_
          rintro _ rfl
          exact (passing value rfl contents isWritten).map fun _ holds => .some holds

end

/-! ## What is being typed -/

theorem passing_task (task : Option Task) : Passing (taskField task) Reader.task fun _ => True := by
  match task with
  | none => exact passing_ok ((reads_byte noTask).passes.then fun _ same => by
      subst same
      exact passes_pure trivial)
  | some .awaitingKey => exact passing_ok ((reads_byte awaitingKeyTask).passes.then fun _ same => by
      subst same
      exact passes_pure trivial)
  | some (.printingCatalog next) =>
      have parts : taskField (some (.printingCatalog next)) =
          fields [.ok [printingTask], countField next] := by
        simp only [taskField, fields_ok_cons]
        cases countField next <;> simp [fields]
      rw [parts]
      refine (passing_ok (reads_byte printingTask).passes).cons ?_
      rintro _ rfl
      exact (passing_count next).cons fun _ _ => passing_nil (passes_pure trivial)

theorem passing_editor (version : Nat) (editor : Editor) :
    Passing (editorFields version editor) (Reader.editor version) fun result =>
      result.name = editor.name := by
  refine (passing_ok (reads_flag editor.isEditing).passes).cons fun _ _ => ?_
  refine (passing_name editor.name).cons ?_
  rintro _ rfl
  refine (passing_ok (passes_integer editor.level)).cons fun _ _ => ?_
  refine (passing_count editor.row).cons fun _ _ => (passing_count editor.col).cons fun _ _ => ?_
  cases holdsLevels version with
  | true =>
      have path : Passing (fields (countField editor.path.length :: editor.path.map countField))
          (counted (word 4)) fun _ => True :=
        (passing_counted editor.path fun index _ => passing_count index).imp fun _ _ => trivial
      exact path.cons fun _ _ => passing_nil (passes_pure rfl)
  | false =>
      have none : Passing (.ok []) (pure [] : Reader (List Nat)) fun _ => True :=
        passing_ok (passes_pure trivial)
      exact none.cons fun _ _ => passing_nil (passes_pure rfl)

theorem passing_prompt (prompt : Prompt) : Passing (promptFields prompt) Reader.prompt fun _ => True := by
  intro bytes written
  cases encoded : Codec.encode ⟨.input, prompt.argument⟩ with
  | error error =>
      rw [promptFields, encoded] at written
      cases written
  | ok instruction =>
      rw [promptFields, encoded] at written
      refine Passing.cons (passing_long instruction) (fun _ _ => ?_) bytes written
      refine fun others writtenOthers => .require_bind fun _ => .require_bind fun _ => ?_
      exact (passing_shortText prompt.label).cons (fun _ _ => passing_nil (passes_pure trivial)) others
        writtenOthers

/-! ## Devices and calls -/

theorem passing_alpha (alpha : Bytes) : Passing (shortField alpha) Reader.alpha fun _ => True :=
  (passing_short alpha).then fun _ _ => .require_bind fun _ => passes_pure trivial

theorem passing_program (program : Program) :
    Passing (programField program) Reader.program fun _ => True := by
  have parts : programField program =
      fields [longField program.text, .ok [bits program.isLocked program.cachesEmpty]] := by
    rw [programField]
    cases longField program.text <;> simp [fields]
  rw [parts]
  refine (passing_long program.text).cons fun _ _ => ?_
  refine (passing_ok (reads_byte _).passes).cons fun _ _ => passing_nil ?_
  exact (passes_sound _).imp fun _ _ => trivial

/-- What a layout gives back of a frame: what it says of what its call keeps, and who is returned to. -/
structure FrameComesBack (version : Nat) (frame result : Frame) : Prop where
  saves : result.savesStack = (frame.inLayout version).savesStack
  parks : result.parksEditor = (frame.inLayout version).parksEditor
  caller : frame.caller.IsDistinct → result.caller = frame.caller

theorem passing_frame (version : Nat) (library : Library) (frame : Frame) :
    Passing (frameField version frame) (Reader.frame version library)
      (FrameComesBack version frame) := by
  have parts : frameField version frame =
      fields [.ok (integerField frame.caller.code), addressField frame.address,
        .ok (if holdsLevels version then [frame.bits] else [])] := by
    rw [frameField]
    cases addressField frame.address <;> simp [fields]
  rw [parts]
  refine (passing_ok (reads_integer_bmod _).passes).cons ?_
  rintro _ rfl
  have passesBits (caller : Caller) (address : Option Nat)
      (same : frame.caller.IsDistinct → caller = frame.caller) :
      Passes (if holdsLevels version then do
          return ({ caller, address } : Frame).withBits (← byte)
        else return { caller, address }) (if holdsLevels version then [frame.bits] else [])
        (FrameComesBack version frame) := by
    cases levels : holdsLevels version with
    | true =>
        have whole : frame.inLayout version = frame := by rw [Frame.inLayout, if_pos levels]
        refine (reads_byte frame.bits).passes.map ?_
        rintro _ rfl
        have saves : _ = frame.savesStack := congrArg Frame.savesStack (withBits_bits frame)
        have parks : _ = frame.parksEditor := congrArg Frame.parksEditor (withBits_bits frame)
        exact ⟨by rw [whole, ← saves]; rfl, by rw [whole, ← parks]; rfl, same⟩
    | false =>
        have plain : frame.inLayout version = { caller := frame.caller, address := frame.address } := by
          rw [Frame.inLayout, levels]
          rfl
        exact passes_pure ⟨plain ▸ rfl, plain ▸ rfl, same⟩
  intro bytes written
  refine (passes_present _).before fun caller isCaller => ?_
  have same (distinct : frame.caller.IsDistinct) : caller = frame.caller :=
    Caller.eq_of_ofCode?_bmod distinct isCaller
  refine (passing_address frame.address).cons (fun address _ => ?_) bytes written
  refine (passing_ok ?_).last
  cases caller with
  | program index => exact .require_bind fun _ => passesBits _ _ same
  | solver | integrator => exact passesBits _ _ same

/-- Frames that could be pushed are the items of the stack, which is not too deep. -/
theorem of_foldlM_push {items : List Frame} {before after : Returns}
    (room : before.depth ≤ before.limit)
    (pushed : items.foldlM BoundedStack.push before = .ok after) :
    after = { before with items := items.reverse ++ before.items } ∧ after.depth ≤ before.limit := by
  induction items generalizing before with
  | nil =>
      cases pushed
      exact ⟨rfl, room⟩
  | cons item items ih =>
      rw [List.foldlM_cons, BoundedStack.push] at pushed
      split at pushed
      · cases pushed
      · next space =>
          have roomNext : before.depth + 1 ≤ before.limit := by
            simpa [BoundedStack.isFull] using space
          have below : ({ before with items := item :: before.items } : Returns).depth ≤
              ({ before with items := item :: before.items } : Returns).limit := by
            simpa [BoundedStack.depth] using roomNext
          obtain ⟨same, depth⟩ := ih below pushed
          exact ⟨by rw [same, List.reverse_cons, List.append_assoc]; rfl, depth⟩

/-- What is read of return frames: they are not too many, and each one comes back. -/
structure FramesComeBack (version : Nat) (returns result : Returns) : Prop where
  limit : result.limit = maximalReturns
  overflow : result.overflow = .returnStackFull
  depth : result.depth ≤ maximalReturns
  frames : List.Forall₂ (FrameComesBack version) returns.items result.items

theorem passing_returns (version : Nat) (library : Library) (returns : Returns) :
    Passing (fields (countField returns.depth :: returns.items.reverse.map (frameField version)))
      (Reader.returns version library) (FramesComeBack version returns) := by
  have frames := passing_counted returns.items.reverse fun frame _ =>
    passing_frame version library frame
  rw [List.length_reverse] at frames
  refine frames.then fun read related => (passes_sound _).imp fun result pushed => ?_
  obtain ⟨rfl, depth⟩ := of_foldlM_push (Nat.zero_le _) pushed
  refine ⟨rfl, rfl, depth, ?_⟩
  have reversed := List.rel_reverse related
  rw [List.reverse_reverse] at reversed
  simpa [Returns.initial, BoundedStack.empty] using reversed

/-! ## Solver and integrator -/

/-- What is read of a search for a root: its variable, how far it is, and the program that it goes home to. -/
structure SolverComesBack (solver result : Solver) : Prop where
  variableName : result.variableName = solver.variableName
  stage : result.stage = solver.stage
  program : result.program = solver.program

/-- What is read of an integration. -/
structure IntegratorComesBack (integrator result : Integrator) : Prop where
  variableName : result.variableName = integrator.variableName
  stage : result.stage = integrator.stage
  program : result.program = integrator.program

theorem passing_solver (solver : Solver) :
    Passing (solverFields solver) Reader.solver (SolverComesBack solver) := by
  refine (passing_short _).cons fun _ _ => (passing_short _).cons fun _ _ => ?_
  refine (passing_short _).cons ?_
  rintro _ rfl
  refine (passing_ok (reads_flag _).passes).cons fun _ _ => (passing_count _).cons ?_
  rintro _ rfl
  refine (passing_address _).cons fun _ _ => (passing_ok ?_).last
  simp only [List.flatMap_cons, List.flatMap_nil, List.append_assoc, List.append_nil,
    List.cons_append, List.nil_append]
  refine (reads_byte solver.stage).passes.bind ?_
  rintro _ rfl
  refine (reads_byte _).passes.bind fun _ _ => ?_
  refine (reads_flag _).passes.bind fun _ _ => (passes_integer _).bind fun _ _ => ?_
  -- Eleven numbers.
  iterate 10 refine (reads_real _).passes.bind fun _ _ => ?_
  exact (reads_real _).passes.map fun _ _ => ⟨rfl, rfl, rfl⟩

theorem passing_integrator (integrator : Integrator) :
    Passing (integratorFields integrator) Reader.integrator (IntegratorComesBack integrator) := by
  refine (passing_short _).cons fun _ _ => (passing_short _).cons fun _ _ => ?_
  refine (passing_short _).cons ?_
  rintro _ rfl
  refine (passing_ok (reads_flag _).passes).cons fun _ _ => (passing_count _).cons ?_
  rintro _ rfl
  refine (passing_address _).cons fun _ _ => passing_front fun _ written => ?_
  simp only [List.flatMap_cons, List.flatMap_nil, List.append_assoc, List.append_nil,
    List.cons_append]
  refine (reads_byte integrator.stage).passes.bind ?_
  rintro _ rfl
  iterate 6 refine (reads_real _).passes.bind fun _ _ => ?_
  refine Passing.cons (passing_count _) (fun _ _ => ?_) _ written
  refine (passing_count _).cons fun _ _ => (passing_count _).cons fun _ _ => ?_
  refine passing_front fun _ written => ?_
  simp only [List.flatMap_cons, List.flatMap_append, List.append_assoc, List.cons_append,
    List.nil_append]
  refine (reads_real _).passes.bind fun _ _ => (reads_real _).passes.bind fun _ _ => ?_
  refine (reads_reals _).passes.bind fun _ _ => (reads_reals _).passes.bind fun _ _ => ?_
  refine Passing.cons (passing_count _) (fun _ _ => (passing_ok ?_).last) _ written
  simp only [List.flatMap_cons, List.flatMap_nil, List.append_nil]
  iterate 4 refine (reads_real _).passes.bind fun _ _ => ?_
  exact (reads_real _).passes.map fun _ _ => ⟨rfl, rfl, rfl⟩

/-! ## Both ends of a file -/

theorem passes_signature (version : Nat) :
    Passes (Reader.signature version) (StateFile.signature version) fun _ => True := by
  refine (reads_bytes magic).passes.bind fun _ _ => .require_bind fun _ => ?_
  exact (passes_word 4 version).then fun _ _ => (passes_require _).imp fun _ _ => trivial

theorem passes_platform_of_nonzero {bytes : Bytes} (limit : Nat) (nonzero : ∀ byte ∈ bytes, byte ≠ 0) :
    Passes (Reader.platform limit) (bytes ++ [0]) fun _ => True := by
  induction bytes generalizing limit with
  | nil =>
      cases limit with
      | zero => exact (reads_byte 0).passes.then fun _ _ => (passes_require _).imp fun _ _ => trivial
      | succ limit =>
          refine (reads_byte 0).passes.then ?_
          rintro _ rfl
          exact passes_pure trivial
  | cons byte bytes ih =>
      have readsRest (limit : Nat) := ih limit fun other member =>
        nonzero other (List.mem_cons_of_mem _ member)
      have differs := nonzero byte List.mem_cons_self
      cases limit with
      | zero =>
          refine (reads_byte byte).passes.bind ?_
          rintro _ rfl
          rw [beq_eq_false_iff_ne.mpr differs]
          exact passes_refuse
      | succ limit =>
          refine (reads_byte byte).passes.bind ?_
          rintro _ rfl
          rw [if_pos differs]
          exact readsRest limit

theorem passes_platform (platform : String) :
    Passes (Reader.platform maximalPlatformLength) (platformField platform) fun _ => True := by
  refine passes_platform_of_nonzero _ fun byte member => ?_
  obtain ⟨original, -, rfl⟩ := List.mem_map.mp member
  split
  · decide
  · assumption

end Keystroke.StateFile
