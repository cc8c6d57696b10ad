import Mathlib
import Keystroke.Instruction.Parser
import Keystroke.Proofs.Calls.Returns

/-!
# Typing and editing programs

Reading a line and editing a program may fail, but only with ordinary errors. Every edit forgets the
calls.
-/

namespace Keystroke

open Outcome Keystroke.Action

/-! ## Lines -/

namespace TypedLine

/-- What is wrong with a line that cannot be read. -/
def IsMisreading (error : Error) : Prop :=
  error.kind ∈ [ErrorKind.invalidData, .nameTooLong, .outOfRange, .nonexistent] ∧ error.IsOrdinary

instance (error : Error) : Decidable (IsMisreading error) := inferInstanceAs (Decidable (_ ∧ _))

/-- An outcome of reading a text. -/
abbrev Reads {α : Type} (outcome : Outcome α) : Prop := outcome.EndsIn IsMisreading fun _ => True

theorem reads_failWith {α : Type} {kind : ErrorKind} {detail : String} (misreading : IsMisreading ⟨kind, detail⟩) :
    Reads (failWith kind detail : Outcome α) := misreading

theorem reads_fail {α : Type} {kind : ErrorKind} (misreading : IsMisreading (.plain kind)) :
    Reads (fail kind : Outcome α) := misreading

theorem reads_unquote (text : List Char) : Reads (unquote text) := by
  unfold unquote
  split
  · split
    · trivial
    · exact reads_failWith (by decide)
  · exact reads_failWith (by decide)

theorem reads_directArgument (text : List Char) : Reads (directArgument text) := by
  unfold directArgument
  refine ends_ite (fun _ => ?_) fun _ => ends_ite (fun _ => ?_) fun _ => ends_ite (fun _ => ?_)
    fun _ => ?_
  · refine (reads_unquote _).bind fun _ _ => ends_ite (fun _ => ?_) fun _ => trivial
    exact reads_fail (by decide)
  · split
    · trivial
    · exact reads_failWith (by decide)
  · exact ends_ite (fun _ => trivial) fun _ => reads_fail (by decide)
  · split
    · exact ends_ite (fun _ => trivial) fun _ => reads_failWith (by decide)
    · exact reads_failWith (by decide)

theorem reads_argument (text : List Char) : Reads (argument text) := by
  refine ends_ite (fun _ => ?_) fun _ => reads_directArgument text
  refine (reads_directArgument _).bind fun direct _ => ?_
  split
  · trivial
  · exact reads_failWith (by decide)

theorem reads_checkArgument (opcode : Opcode) (argument : Argument) : Reads (checkArgument opcode argument) := by
  unfold checkArgument
  split
  · refine ends_ite (fun _ => reads_fail (by decide)) fun _ => ?_
    split
    any_goals exact reads_failWith (by decide)
    trivial
  any_goals exact reads_failWith (by decide)
  · exact ends_ite (fun _ => reads_failWith (by decide)) fun _ => trivial
  · trivial

theorem reads_withArgument (opcode : Opcode) (text : List Char) : Reads (withArgument opcode text) := by
  refine ends_ite (fun _ => trivial) fun _ => ?_
  split
  · exact reads_failWith (by decide)
  · exact (reads_unquote text).bind fun _ _ => trivial
  · exact (reads_argument text).bind fun argument _ => (reads_checkArgument opcode argument).bind fun _ _ => trivial

theorem reads_parse (line : String) : Reads (parse line) := by
  refine ends_ite (fun _ => trivial) fun _ => ends_ite (fun _ => ?_) fun _ => ?_
  · exact (reads_unquote _).bind fun _ _ => ends_ite (fun _ => trivial) fun _ => trivial
  · split
    · trivial
    · split
      · exact reads_withArgument _ _
      · exact reads_failWith (by decide)

theorem isMisreading_of_parse {line : String} {error : Error} (misread : parse line = .error error) :
    IsMisreading error := by
  have reads := reads_parse line
  rwa [misread] at reads

theorem isMisreading_of_parseArgument {opcode : Opcode} {text : String} {error : Error}
    (misread : parseArgument opcode text = .error error) : IsMisreading error := by
  rw [parseArgument] at misread
  have reads := reads_withArgument opcode (Text.trim text.toList)
  rwa [misread] at reads

theorem ordinary_withArgument (opcode : Opcode) (text : List Char) : IsOrdinary (withArgument opcode text) :=
  (reads_withArgument opcode text).permit fun _ misreading => misreading.2

theorem ordinary_parse (line : String) : IsOrdinary (parse line) :=
  (reads_parse line).permit fun _ misreading => misreading.2

end TypedLine

theorem Entry.ordinary_value (entry : Entry) : IsOrdinary entry.value := by
  unfold Entry.value
  extract_lets bare mantissa exponent
  split
  · exact ends_fail rfl
  · exact ends_ite (fun _ => by trivial) fun _ => ends_fail rfl

/-! ## Encoding -/

theorem Codec.ordinary_argumentBytes (argument : Argument) :
    IsOrdinary (Codec.argumentBytes argument) := by
  have ordinaryText : ∀ bytes, IsOrdinary (Codec.textBytes bytes) := fun bytes =>
    ends_ite (fun _ => ends_fail rfl) fun _ => by trivial
  unfold Codec.argumentBytes
  split
  case h_6 | h_7 => exact (ordinaryText _).bind fun _ _ => ends_pure.mpr trivial
  case h_8 => exact ends_ite (fun _ => by trivial) fun _ => by simp
  case h_9 value text =>
    cases text with
    | some text => exact ends_ite (fun _ => ends_fail rfl) fun _ => by trivial
    | none =>
        unfold Codec.literalBytes
        dsimp only
        split <;> trivial
  case h_10 => exact ends_ite (fun _ => by simp) fun _ => by trivial
  all_goals trivial

theorem Codec.ordinary_encode (instruction : Instruction) : IsOrdinary (Codec.encode instruction) := by
  refine (ordinary_argumentBytes _).bind fun _ _ => ?_
  exact ends_ite (fun _ => by simp) fun _ => ends_pure.mpr trivial

/-! ## Reading -/

namespace Program

variable (program : Program)

theorem onlyCrashes_read (address : Nat) : OnlyCrashes (program.read address) := by
  unfold Program.read
  split
  · trivial
  · rfl

theorem onlyCrashes_cachedTarget (place : Nat) : OnlyCrashes (program.cachedTarget place) := by
  unfold cachedTarget
  split
  · trivial
  · rfl

theorem onlyCrashes_labelBetween (argument : Argument) (limit fuel address : Nat) :
    OnlyCrashes (program.labelBetween argument limit fuel address) := by
  induction fuel generalizing address with
  | zero => trivial
  | succ fuel ih =>
      refine ends_ite (fun _ => ?_) fun _ => by trivial
      have isLabel : OnlyCrashes (program.isLabelAt argument address) :=
        (program.onlyCrashes_read address).bind fun _ _ => ends_pure.mpr trivial
      exact isLabel.bind fun _ _ => ends_ite (fun _ => ends_pure.mpr trivial) fun _ => ih _

theorem onlyCrashes_findLabel (start : Option Nat) (argument : Argument) :
    OnlyCrashes (program.findLabel start argument) := by
  refine (program.onlyCrashes_labelBetween _ _ _ _).bind fun label _ => ?_
  cases label with
  | some address => exact ends_pure.mpr trivial
  | none => exact program.onlyCrashes_labelBetween _ _ _ _

/-- An instruction that cannot be fetched crashes the program that runs the machine. -/
theorem onlyCrashes_fetch (address : Nat) (wantTarget : Bool) :
    OnlyCrashes (program.fetch address wantTarget) := by
  refine (program.onlyCrashes_read address).bind fun decoded _ => ?_
  dsimp only
  split
  · refine (program.onlyCrashes_cachedTarget _).bind fun target _ => ?_
    split
    · exact ends_pure.mpr trivial
    · refine (program.onlyCrashes_findLabel _ _).bind fun label _ => ?_
      split <;> exact ends_pure.mpr trivial
  · exact ends_pure.mpr trivial

end Program

namespace Library

variable (library : Library)

theorem ordinary_fetch (index address : Nat) (wantTarget : Bool) :
    IsOrdinary (library.fetch index address wantTarget) := by
  unfold fetch
  split
  · simp
  · next program _ =>
      have ordinary : IsOrdinary (program.fetch address wantTarget) :=
        (program.onlyCrashes_fetch address wantTarget).isOrdinary_of_crash
      exact ordinary.bind fun _ _ => ends_pure.mpr trivial

/-- A program that exists can be fetched from unless that crashes. -/
theorem onlyCrashes_fetch {index : Nat} {program : Program} (found : library.get? index = some program)
    (address : Nat) (wantTarget : Bool) : OnlyCrashes (library.fetch index address wantTarget) := by
  rw [fetch, found]
  exact (program.onlyCrashes_fetch address wantTarget).bind fun _ _ => ends_pure.mpr trivial

/-! ## Edits -/

theorem ordinary_existing (index : Nat) : IsOrdinary (library.existing index) := by
  unfold existing
  split
  · trivial
  · exact ends_fail rfl

theorem ordinary_insert (index address : Nat) (instruction : Instruction) :
    IsOrdinary (library.insert index address instruction) := by
  refine (Codec.ordinary_encode instruction).bind fun bytes _ => ?_
  refine (library.ordinary_existing index).bind fun program _ => ?_
  refine ends_ite (fun _ => ends_fail rfl) fun _ => ends_ite (fun _ => ?_) fun _ => ?_
  · simp
  · exact ends_ite (fun _ => ends_pure.mpr trivial) fun _ => ends_pure.mpr trivial

theorem ordinary_delete (index address : Nat) : IsOrdinary (library.delete index address) := by
  refine (library.ordinary_existing index).bind fun program _ => ?_
  refine ends_ite (fun _ => by simp) fun _ => ?_
  refine (program.onlyCrashes_read address).isOrdinary_of_crash.bind fun decoded _ => ?_
  refine ends_ite (fun _ => ?_) fun _ => ?_
  · split
    · exact ends_pure.mpr trivial
    · refine ends_ite (fun _ => ends_fail rfl) fun _ => ends_ite (fun _ => ends_fail rfl) fun _ => ?_
      exact ends_pure.mpr trivial
  · exact ends_ite (fun _ => ends_fail rfl) fun _ => ends_pure.mpr trivial

theorem ordinary_clear (index : Nat) : IsOrdinary (library.clear index) := by
  refine (library.ordinary_existing index).bind fun program _ => ?_
  exact ends_ite (fun _ => ends_fail rfl) fun _ => ends_ite (fun _ => ends_pure.mpr trivial)
    fun _ => ends_pure.mpr trivial

theorem ordinary_openNew : IsOrdinary library.openNew := by
  refine (library.ordinary_existing _).bind fun last _ => ?_
  refine ends_ite (fun _ => ends_pure.mpr trivial) fun _ => ?_
  exact (library.ordinary_insert _ _ _).bind fun _ _ => ends_pure.mpr trivial

end Library

namespace Machine

variable {law : Calls → Nat → Prop} [Calls.Law law] {machine : Machine}

theorem Obeys.nextLine (obeys : machine.Obeys law) : machine.nextLine.Obeys law := by
  unfold Machine.nextLine
  split
  · exact obeys
  · exact obeys.moved _ _ _

theorem Obeys.previousLine (obeys : machine.Obeys law) : machine.previousLine.Obeys law := by
  unfold Machine.previousLine
  split
  · exact obeys
  · exact obeys.moved _ _ _

variable [Calls.Maintained law]

theorem ordinary_currentProgram (machine : Machine) : IsOrdinary machine.currentProgram := by
  unfold currentProgram
  split
  · trivial
  · simp

theorem ordinary_globalLabel (machine : Machine) (name : List UInt8) :
    IsOrdinary (machine.globalLabel name) := by
  unfold globalLabel
  split
  · trivial
  · exact ends_fail rfl

theorem leads_insertLine (obeys : machine.Obeys law) (instruction : Instruction) :
    (insertLine instruction).Upholds law machine := by
  refine leads_ite (fun _ => leads_fail obeys rfl) fun _ => leads_get ?_
  refine leads_lift obeys (ordinary_currentProgram machine) fun program _ => ?_
  refine leads_lift obeys (machine.library.ordinary_insert _ _ _) fun library _ => ⟨?_, trivial⟩
  exact (obeys.moved library machine.program machine.address).clearReturns.moved _ _ _

theorem leads_deleteLine (obeys : machine.Obeys law) :
    deleteLine.Upholds law machine := by
  refine leads_get ?_
  split
  · exact ⟨obeys, trivial⟩
  · next address _ =>
      refine leads_lift obeys (machine.library.ordinary_delete _ _) ?_
      rintro ⟨deleted, library⟩ -
      have edited := (obeys.moved library machine.program machine.address).clearReturns
      refine leads_set ⟨?_, trivial⟩
      split
      · exact edited.moved _ _ _
      · exact edited

theorem leads_deleteLines (obeys : machine.Obeys law) (count : Nat) :
    (deleteLines count).Upholds law machine := by
  induction count generalizing machine with
  | zero => exact ⟨obeys, trivial⟩
  | succ count ih =>
      refine leads_get (leads_ite (fun _ => ?_) fun _ => ⟨obeys, trivial⟩)
      refine (leads_deleteLine obeys).bind fun deleted _ obeysAfter _ => ?_
      exact leads_ite (fun _ => leads_modify (ih obeysAfter.nextLine)) fun _ => ⟨obeysAfter, trivial⟩

theorem leads_gotoNewProgram (obeys : machine.Obeys law) :
    gotoNewProgram.Upholds law machine := by
  refine leads_get (leads_lift obeys machine.library.ordinary_openNew ?_)
  rintro ⟨program, library⟩ -
  exact ⟨(obeys.moved library machine.program machine.address).clearReturns.moved _ _ _, trivial⟩

theorem leads_gotoLine (obeys : machine.Obeys law) (argument : Argument) :
    (gotoLine argument).Upholds law machine := by
  refine leads_get ?_
  split
  · refine leads_lift obeys (ordinary_currentProgram machine) fun program _ => ?_
    exact leads_set ⟨(obeys.moved _ _ _).clearReturns, trivial⟩
  · refine leads_lift obeys (ordinary_globalLabel machine _) fun place _ => ?_
    exact leads_set ⟨(obeys.moved _ _ _).clearReturns, trivial⟩
  · exact leads_fail obeys rfl

theorem leads_clearProgram (obeys : machine.Obeys law) (name : List UInt8) :
    (clearProgram name).Upholds law machine := by
  refine leads_get (leads_lift obeys (ordinary_globalLabel machine name) ?_)
  rintro ⟨program, address⟩ -
  refine leads_lift obeys (machine.library.ordinary_clear program) fun library _ => ⟨?_, trivial⟩
  have cleared := (obeys.moved library machine.program machine.address).clearReturns
  dsimp only [on_set]
  split
  · exact cleared.moved _ _ _
  · split
    · exact cleared.moved _ _ _
    · exact cleared

end Machine

end Keystroke
