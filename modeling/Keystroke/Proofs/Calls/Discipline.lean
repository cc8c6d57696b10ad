import Mathlib
import Keystroke.Proofs.Calls.Inputs
import Keystroke.Proofs.Calls.Leaving
import Keystroke.Proofs.Calls.Reloads
import Keystroke.Proofs.Calls.Sparing

/-!
# The discipline of calls

The machines that can be reached from a new one: whatever a host enters, presses or lets the machine do,
and whichever layout the machine is saved in and loaded from, the return stack, the levels of the variables
and what the calls keep fit together. Only commands that name the variables in which calls keep something
could break this.
-/

namespace Keystroke

open Keystroke.Action
open Machine (packageName parkedEditorName)

namespace Calls

/-- Frames that say the same of what their calls keep. -/
theorem Match.of_flags {keys : List (List UInt8 × Int)} {frames others : List Frame}
    (matched : Match keys frames) (same : List.Forall₂ (fun frame other : Frame =>
      other.savesStack = frame.savesStack ∧ other.parksEditor = frame.parksEditor) frames others) :
    Match keys others := by
  induction same with
  | nil => trivial
  | cons flags rest ih =>
      obtain ⟨here, matchedRest⟩ := matched
      rw [Match, flags.1, flags.2, ← rest.length_eq]
      exact ⟨here, ih matchedRest⟩

/-- Frames of calls that keep nothing. -/
theorem match_nil {frames : List Frame}
    (none : ∀ frame ∈ frames, frame.savesStack = false ∧ frame.parksEditor = false) :
    Match [] frames := by
  induction frames with
  | nil => trivial
  | cons frame rest ih =>
      obtain ⟨saves, parks⟩ := none frame List.mem_cons_self
      exact ⟨by simp [saves, parks], ih fun other member => none other (List.mem_cons_of_mem _ member)⟩

end Calls

namespace StateFile

open Calls (heading)

variable {version : Nat} {calls : Calls} {machine : Machine}

/-- What comes back has frames that say what its calls keep. -/
theorem IsRestored.isSound {result : Machine} (restored : IsRestored calls.names version machine result)
    (sound : calls.IsSound machine.nextStorage) (settled : machine.IsSettled calls 0) :
    result.IsSound := by
  have frames : Calls.Match ((result.callsWith calls.names).kept.map Variable.key) result.returns.items := by
    -- Without levels neither the table nor the frames hold anything of what calls keep.
    cases levels : holdsLevels version with
    | true =>
        have matched := sound.frames
        rw [← settled.returns, ← Calls.map_key_of_heading (restored.headings settled levels)] at matched
        refine matched.of_flags (restored.returns.frames.imp fun frame result same => ?_)
        have whole : frame.inLayout version = frame := by rw [Frame.inLayout, if_pos levels]
        exact ⟨whole ▸ same.saves, whole ▸ same.parks⟩
    | false =>
        rw [restored.kept_eq_nil sound.toIsStored settled levels]
        refine Calls.match_nil fun frame member => ?_
        obtain ⟨original, -, same⟩ := exists_of_forall₂ restored.returns.frames member
        have plain : original.inLayout version =
            { caller := original.caller, address := original.address } := by
          rw [Frame.inLayout, levels]
          rfl
        exact ⟨same.saves.trans (congrArg Frame.savesStack plain),
          same.parks.trans (congrArg Frame.parksEditor plain)⟩
  refine ⟨result.callsWith calls.names, { restored.isStored sound.toIsStored settled with
    frames
    names := sound.names
    solver := ?_
    integrator := ?_
    errors := ?_ }, restored.isSettled settled⟩
  · exact restored.solver.1 ▸ settled.solver ▸ sound.solver
  · exact restored.integrator.1 ▸ settled.integrator ▸ sound.integrator
  · simp [Machine.callsWith, restored.errors]

end StateFile

namespace Machine

/-- The machines that a host with memory for no more elements than a file has words for gets from a new one by
inputs that spare what calls keep, and by going back to machines that it saved. -/
inductive IsReached : Machine → Prop
  | new {memory : Nat} (room : memory ≤ Grid.sizeLimit) (generator : Generator) : IsReached (new memory generator)
  | after {machine : Machine} (reached : IsReached machine) (input : Input)
    (spares : input.Spares machine) : IsReached (machine.after input)
  | reloaded {machine other : Machine} (reached : IsReached machine) (otherReached : IsReached other)
    (version : Nat) (platform : String) (generator : Generator) :
    IsReached (machine.reloadedBy version platform generator other)

theorem IsReached.initial (generator : Generator) : (initial generator).IsReached := .new le_rfl generator

variable {machine : Machine}

/-- An instruction that spares what calls keep may do anything else. -/
theorem isAllowed_of_spares {instruction : Instruction} (spares : instruction.Spares machine) :
    instruction.IsAllowed Calls.IsSound machine :=
  ⟨spares, fun _ kind => Error.keepsPackages_plain kind⟩

/-- One input that spares what calls keep. -/
theorem IsSound.after (sound : machine.IsSound) {input : Input} (spares : input.Spares machine) :
    (machine.after input).IsSound :=
  Obeys.after sound (Input.PerformsOnly.imp (fun _ _ => isAllowed_of_spares) spares)

theorem IsSound.reloadedBy (sound : machine.IsSound) {other : Machine} (soundOther : other.IsSound)
    (version : Nat) (platform : String) (generator : Generator) :
    (machine.reloadedBy version platform generator other).IsSound := by
  obtain ⟨calls, sound, settled⟩ := sound
  exact obeys_reloadedBy sound.toIsStored settled (fun _ restored => restored.isSound sound settled)
    soundOther platform generator

theorem IsReached.afterAll (reached : machine.IsReached) {inputs : List Input}
    (spare : Input.AllSpare inputs machine) : (inputs.foldl Machine.after machine).IsReached := by
  induction inputs generalizing machine with
  | nil => exact reached
  | cons input inputs ih => exact ih (reached.after input spare.1) spare.2

/-- Any sequence of inputs and reloads. -/
theorem IsReached.isSound (reached : machine.IsReached) : machine.IsSound := by
  induction reached with
  | new room generator => exact isSound_new room generator
  | after reached input spares sound => exact sound.after spares
  | reloaded reached otherReached version platform generator sound soundOther =>
      exact sound.reloadedBy soundOther version platform generator

/-- Something is kept under a name for the call at a level. -/
def Keeps (machine : Machine) (name : List UInt8) (level : Nat) : Prop :=
  ∃ entry ∈ machine.bindings.entries,
    entry.name = name ∧ entry.level = level ∧ entry.has Variable.privateMark = true

/-- The calls of a machine, its variables and its errors fit together. -/
structure IsDisciplined (machine : Machine) : Prop where
  depth : machine.returns.depth ≤ 1024
  ordered : machine.bindings.entries.Pairwise fun older newer => older.level ≤ newer.level
  levels : ∀ entry ∈ machine.bindings.entries,
    entry.level = -1 ∨ 0 ≤ entry.level ∧ entry.level ≤ machine.returns.depth
  /-- Frames are counted from the bottom, where the level of the first is one. -/
  frames : ∀ index frame, machine.returns.items.reverse[index]? = some frame →
    (frame.savesStack = true ↔ machine.Keeps packageName (index + 1)) ∧
      (frame.parksEditor = true ↔ machine.Keeps parkedEditorName (index + 1))
  /-- No package is lost by what was done, nor will it be by the next line or command. -/
  errors : ∀ error ∈ machine.errors, error.detail ≠ "FUNC PACKAGE LOST"
  step : machine.StepsOnly Instruction.Spares → ∀ error, (step.on machine).1 = .error error →
    error.detail ≠ "FUNC PACKAGE LOST"
  perform : ∀ instruction target, instruction.Spares machine → ∀ error,
    ((perform instruction target).on machine).1 = .error error → error.detail ≠ "FUNC PACKAGE LOST"

end Machine

namespace Calls

theorem Match.of_getElem? {keys : List (List UInt8 × Int)} {frames : List Frame}
    (matched : Match keys frames) {index : Nat} {frame : Frame}
    (found : frames.reverse[index]? = some frame) :
    (frame.savesStack = true ↔ (packageName, (index + 1 : Int)) ∈ keys) ∧
      (frame.parksEditor = true ↔ (parkedEditorName, (index + 1 : Int)) ∈ keys) := by
  induction frames with
  | nil => cases found
  | cons top rest ih =>
      obtain ⟨here, matchedRest⟩ := matched
      rw [List.reverse_cons] at found
      by_cases below : index < rest.reverse.length
      · rw [List.getElem?_append_left below] at found
        exact ih matchedRest found
      · rw [List.getElem?_append_right (Nat.not_lt.mp below)] at found
        have last : index - rest.reverse.length = 0 ∧ top = frame := by
          cases position : index - rest.reverse.length with
          | zero =>
              rw [position] at found
              exact ⟨rfl, Option.some.inj found⟩
          | succ position' =>
              rw [position] at found
              cases found
        obtain ⟨position, rfl⟩ := last
        have same : index = rest.length := by
          rw [List.length_reverse] at below position
          omega
        rw [same]
        exact here

end Calls

namespace Machine

variable {machine : Machine} {calls : Calls}

/-- What is kept is what stands under a reserved name. -/
theorem keeps_iff (sound : calls.IsSound machine.nextStorage) (settled : machine.IsSettled calls 0)
    {name : List UInt8} (reserved : name ∈ reservedNames) (level : Nat) :
    machine.Keeps name level ↔ (name, (level : Int)) ∈ calls.kept.map Variable.key := by
  constructor
  · rintro ⟨entry, member, rfl, isLevel, -⟩
    refine List.mem_map.mpr ⟨entry, (settled.mem_kept sound).mpr ⟨member, reserved⟩, ?_⟩
    rw [Variable.key, isLevel]
  · intro kept
    obtain ⟨entry, isKept, key⟩ := List.mem_map.mp kept
    have marks := sound.marked entry isKept
    refine ⟨entry, ((settled.mem_kept sound).mp isKept).1, congrArg Prod.fst key,
      congrArg Prod.snd key, ?_⟩
    rw [Variable.has, marks]
    decide

/-- Calls, variables and errors of every machine that can be reached fit together. -/
theorem IsReached.isDisciplined (reached : machine.IsReached) : machine.IsDisciplined := by
  have soundMachine := reached.isSound
  obtain ⟨calls, sound, settled⟩ := reached.isSound
  refine
    { depth := settled.returns ▸ sound.depth
      ordered := settled.bindings.ordered
      levels := fun entry member => ?_
      frames := fun index frame found => ?_
      errors := settled.errors ▸ sound.errors
      step := fun spares error ends => ?_
      perform := fun instruction target spares error ends => ?_ }
  · have bounds := settled.bindings.levels entry member
    rw [Variable.globalLevel, Machine.level] at bounds
    omega
  · rw [settled.returns] at found
    rw [keeps_iff sound settled (by decide), keeps_iff sound settled (by decide)]
    exact sound.frames.of_getElem? found
  · have leads := (leads_step soundMachine fun fetched found =>
      isAllowed_of_spares (spares fetched found)).2
    rw [ends] at leads
    exact leads
  · have leads := (leads_perform soundMachine (isAllowed_of_spares spares) target).2
    rw [ends] at leads
    exact leads

/-- Enter a program that calls a subroutine in which the stack is kept, and run it up to there. -/
def functionInputs : List Input :=
  ["PRGM", "LBL \"A\"", "XEQ \"B\"", "RTN", "LBL \"B\"", "FUNC 11", "PRGM", "XEQ \"A\""].map .enter ++
    [.execute 4]

/-- A machine in a subroutine that has kept the stack, saved and loaded again. -/
def inFunction : Machine :=
  (functionInputs.foldl after (initial default)).reloadedBy 47 "linux" default (initial default)

/-- The frame says that the stack is kept. -/
theorem isDisciplined_inFunction :
    inFunction.IsReached ∧ inFunction.returns.items.map Frame.savesStack = [true] ∧
      inFunction.IsDisciplined := by
  obtain ⟨spare, saves⟩ : Input.AllSpare functionInputs (initial default) ∧
      inFunction.returns.items.map Frame.savesStack = [true] := by decide +kernel
  have reached : inFunction.IsReached :=
    ((IsReached.initial default).afterAll spare).reloaded (.initial default) 47 "linux" default
  exact ⟨reached, saves, reached.isDisciplined⟩

end Machine

end Keystroke
