import Mathlib
import Keystroke.Machine.Execution
import Keystroke.Proofs.Calls.Programs

/-!
# Performing commands

A command that names no variable in which calls keep something leaves a obeys machine.
-/

namespace Keystroke

open Outcome Keystroke.Action

/-- An instruction that a law has nothing against: it avoids the names under which calls keep things, and if
it returns with an error of its own choice, any error may come of it. -/
structure Instruction.IsAllowed (law : Calls → Nat → Prop) [Calls.Law law] (instruction : Instruction)
    (machine : Machine) : Prop where
  names : instruction.opcode.namesVariable = true →
    machine.Avoids (Calls.Law.names law) instruction.argument
  raises : instruction.opcode = .returnError → ∀ kind, Calls.Law.permitted law (.plain kind)

namespace Machine

variable {law : Calls → Nat → Prop} {machine : Machine}

/-! ## Jumps, arguments and choices -/

theorem ordinary_labelInProgram (machine : Machine) (argument : Argument) :
    IsOrdinary (machine.labelInProgram argument) := by
  unfold labelInProgram
  split
  · exact ends_fail rfl
  · next program _ =>
      refine (program.onlyCrashes_findLabel _ _).isOrdinary_of_crash.bind fun label _ => ?_
      split
      · exact ends_pure.mpr trivial
      · exact ends_fail rfl

theorem Obeys.ordinary_jumpTarget (obeys : machine.Obeys law) (argument : Argument)
    (target : JumpTarget) : IsOrdinary (machine.jumpTarget argument target) := by
  unfold jumpTarget
  split
  · trivial
  · exact ends_fail rfl
  · refine (obeys.ordinary_resolve argument).bind fun resolved _ => ?_
    split
    · exact ordinary_globalLabel machine _
    · exact ordinary_labelInProgram machine _
    · exact ordinary_labelInProgram machine _
    · exact ends_fail rfl

/-- The first command of its kind that there is, or what is done without one. -/
theorem leads_getD_or {permitted : Error → Prop} {always : Machine → Prop} {property : Unit → Machine → Prop}
    {first rest : Option (Action Unit)} {otherwise : Action Unit}
    (leadsFirst : ∀ action, first = some action → action.LeadsIn permitted machine always property)
    (leadsRest : (rest.getD otherwise).LeadsIn permitted machine always property) :
    ((first.or rest).getD otherwise).LeadsIn permitted machine always property := by
  cases first with
  | none => exact leadsRest
  | some action => exact leadsFirst action rfl

section

variable [Calls.Law law]

theorem Obeys.leads_withName (obeys : machine.Obeys law) {argument : Argument}
    (avoids : machine.Avoids (Calls.Law.names law) argument) {action : List UInt8 → Action Unit}
    (leads : ∀ name, name ∉ Calls.Law.names law → (action name).Upholds law machine) :
    (withName argument action).Upholds law machine := by
  have ends : Ends (fun name => name ∉ Calls.Law.names law) (machine.nameArgument argument) := by
    obtain ⟨calls, lawful, settled⟩ := obeys
    have same := Calls.Law.same_names lawful
    exact same ▸ ends_nameArgument settled (same.symm ▸ avoids)
  exact leads_get (leads_lift obeys ends leads)

theorem Obeys.leads_withNumber (obeys : machine.Obeys law) (argument : Argument)
    {action : Nat → Action Unit}
    (leads : ∀ number < 2 ^ 32, (action number).Upholds law machine) :
    (withNumber argument action).Upholds law machine := by
  have ends : Ends (· < 2 ^ 32) (machine.numberArgument argument) := by
    obtain ⟨calls, -, settled⟩ := obeys
    exact ends_numberArgument settled argument
  exact leads_get (leads_lift obeys ends leads)

theorem Obeys.leads_withLabel (obeys : machine.Obeys law) (argument : Argument)
    {action : List UInt8 → Action Unit}
    (leads : ∀ name, (action name).Upholds law machine) :
    (withLabel argument action).Upholds law machine := by
  have ordinary : IsOrdinary (machine.labelArgument argument) := by
    obtain ⟨calls, -, settled⟩ := obeys
    exact ordinary_labelArgument settled argument
  exact leads_get (leads_lift obeys ordinary fun name _ => leads name)

theorem leads_chooseFunction (obeys : machine.Obeys law) {choose : Machine → Machine}
    (chosen : (choose machine).Obeys law) (name : List UInt8) :
    (chooseFunction choose name).Upholds law machine :=
  leads_get (leads_lift obeys (ordinary_globalLabel machine name) fun _ _ => ⟨chosen, trivial⟩)

end

variable [Calls.Law law] [Calls.Maintained law]

/-! ## Jumps and calls -/

theorem leads_goto (obeys : machine.Obeys law) (argument : Argument) (target : JumpTarget) :
    (goto argument target).Upholds law machine := by
  refine leads_get (leads_lift obeys (obeys.ordinary_jumpTarget argument target) ?_)
  rintro ⟨program, address⟩ -
  have cleared : (if machine.isRunning then machine else machine.clearReturns).Obeys law := by
    split
    · exact obeys
    · exact obeys.clearReturns
  exact ⟨cleared.moved _ program (some address), trivial⟩

theorem leads_call (obeys : machine.Obeys law) (argument : Argument) (target : JumpTarget) :
    (call argument target).Upholds law machine := by
  refine leads_get (leads_lift obeys (obeys.ordinary_jumpTarget argument target) ?_)
  rintro ⟨program, address⟩ -
  have enters : ∀ before : Machine, before.Obeys law →
      (modify fun machine => { machine with isRunning := true, program, address := some address } :
        Action Unit).Upholds law before := fun before obeysBefore =>
    ⟨obeysBefore.change (fun _ settled => { settled with }) le_rfl, trivial⟩
  have pushes := leads_pushReturn obeys (show machine.Awaits law (.program machine.program) from trivial)
    machine.address
  refine leads_ite (fun _ => ?_) fun _ => leads_ite (fun _ => ?_) fun _ => enters machine obeys
  · exact pushes.bind fun _ after obeysAfter _ => enters after obeysAfter
  · exact pushes.bind fun _ after obeysAfter _ => leads_modify (enters _ obeysAfter.stopOnReturn)

theorem leads_returnWithNumber (obeys : machine.Obeys law)
    (permitted : ∀ kind, Calls.Law.permitted law (.plain kind)) (number : Nat) :
    (returnWithNumber number).Upholds law machine := by
  refine leads_ite (fun _ => leads_returnFromCall obeys .plain) fun _ => ?_
  split
  · next kind _ =>
      exact leads_ite (fun _ => leads_fail obeys rfl) fun _ =>
        leads_returnWithError obeys (permitted kind)
  · exact leads_fail obeys rfl

/-! ## Commands -/

theorem leads_controlCommand (obeys : machine.Obeys law) {opcode : Opcode} {argument : Argument}
    {target : JumpTarget} (allowed : Instruction.IsAllowed law ⟨opcode, argument⟩ machine)
    {action : Action Unit} (found : controlCommand? opcode argument target = some action) :
    action.Upholds law machine := by
  have avoids := allowed.names
  have counts : ∀ up, machine.Avoids (Calls.Law.names law) argument →
      (countLoop up argument).Upholds law machine := fun up avoids =>
    obeys.leads fun _ same settled => leads_countLoop settled up (same ▸ avoids)
  unfold controlCommand? at found
  split at found <;> cases found
  · exact ⟨obeys, trivial⟩
  · exact ⟨obeys, trivial⟩
  · exact ⟨obeys, trivial⟩
  · exact ⟨obeys, trivial⟩
  · exact leads_goto obeys argument target
  · exact leads_call obeys argument target
  · exact leads_returnFromCall obeys .plain
  · exact leads_returnFromCall obeys .plain
  · exact leads_returnFromCall obeys .yes
  · exact leads_returnFromCall obeys .no
  · exact obeys.leads_withNumber argument fun number _ =>
      leads_returnWithNumber obeys (allowed.raises rfl) number
  · exact leads_fail obeys rfl
  · exact ⟨obeys.change (fun _ settled => { settled with }) le_rfl, trivial⟩
  · exact obeys.leads_withNumber argument fun n small =>
      leads_beginFunction obeys (by omega) _
  · exact leads_setLocalMode obeys false
  · exact leads_setLocalMode obeys true
  · exact counts true (avoids rfl)
  · exact counts false (avoids rfl)
  · exact obeys.leads_withLabel argument fun name =>
      leads_chooseFunction obeys (obeys.chooseToSolve name) name
  · exact obeys.leads_withLabel argument fun name =>
      leads_chooseFunction obeys (obeys.chooseToIntegrate name) name
  · exact obeys.leads_withName (avoids rfl) fun _ => leads_beginSolving obeys
  · exact obeys.leads_withName (avoids rfl) fun _ => leads_beginIntegrating obeys
  · exact obeys.leads_withLabel argument (leads_clearProgram obeys)
  · exact leads_gotoLine obeys argument
  · exact leads_gotoNewProgram obeys
  · exact ⟨obeys.nextLine, trivial⟩
  · exact ⟨obeys.previousLine, trivial⟩
  · exact obeys.leads_withNumber argument fun number _ => leads_deleteLines obeys number

/-- What is left of a machine is a new one with as much memory. -/
theorem Obeys.reset (obeys : machine.Obeys law) (generator : Generator) :
    (machine.reset generator).Obeys law := by
  obtain ⟨calls, lawful, settled⟩ := obeys
  exact (Calls.Maintained.new settled.memory generator).change (fun _ settled => { settled with }) le_rfl

theorem leads_shadowingCommand (obeys : machine.Obeys law) {argument : Argument}
    (avoids : machine.Avoids (Calls.Law.names law) argument) :
    (withName argument fun name => do storeLocal name (← (← get).stack.x)).Upholds law machine := by
  refine obeys.leads_withName avoids fun name unreserved => leads_get ?_
  have ends : Ends (fun x => ∀ calls floor, machine.IsSettled calls floor →
      x.Fits (calls.free machine.nextStorage)) machine.stack.x := by
    have ordinary := obeys.ordinary_x
    cases top : machine.stack.x with
    | error error =>
        rw [top] at ordinary
        exact ordinary
    | ok x =>
        intro calls floor settled
        have fits := ends_x settled
        rwa [top] at fits
  exact leads_lift obeys ends fun x fits => leads_storeLocal obeys unreserved fits

theorem leads_effect (obeys : machine.Obeys law) (flags : Flags) {instruction : Instruction}
    (allowed : instruction.IsAllowed law machine) (target : JumpTarget) :
    (effect machine.memory flags instruction target).Upholds law machine := by
  obtain ⟨opcode, argument⟩ := instruction
  have avoids (calls : Calls) (same : calls.names = Calls.Law.names law)
      (names : opcode.namesVariable = true) : machine.Avoids calls.names argument :=
    same ▸ allowed.names names
  refine leads_getD_or (fun action found => ?_) <| leads_getD_or (fun action found => ?_) <|
    leads_getD_or (fun action found => ?_) <| leads_getD_or (fun action found => ?_) <|
    leads_getD_or (fun action found => ?_) <| leads_getD_or (fun action found => ?_) <|
    leads_getD_or (fun action found => ?_) <| leads_getD_or (fun action found => ?_) ?_
  · exact obeys.leads fun calls same settled =>
      leads_numericCommand settled (avoids calls same) found
  · exact obeys.stays fun _ _ => stays_condition found
  · exact obeys.stays fun _ _ => stays_stackCommand found
  · exact obeys.stays fun _ _ => stays_modeCommand found
  · by_cases shadows : opcode = .storeLocal
    · subst shadows
      cases found
      exact leads_shadowingCommand obeys (allowed.names rfl)
    · exact obeys.leads fun calls same settled =>
        leads_memoryCommand settled (avoids calls same) shadows found
  · exact obeys.leads fun calls same settled =>
      leads_editingCommand settled (avoids calls same) found
  · exact leads_controlCommand obeys allowed found
  · exact obeys.leads fun calls same settled =>
      leads_outputCommand settled (avoids calls same) found
  · cases found : generalCommand? opcode argument with
    | none => exact leads_fail obeys rfl
    | some action =>
        by_cases resets : opcode = .clearAll
        · subst resets
          cases found
          exact ⟨obeys.reset _, trivial⟩
        · exact obeys.stays fun _ _ => stays_generalCommand resets found

theorem leads_perform (obeys : machine.Obeys law) {instruction : Instruction}
    (allowed : instruction.IsAllowed law machine) (target : JumpTarget) :
    (perform instruction target).Upholds law machine := by
  refine leads_get ((leads_effect obeys machine.flags allowed target).bind
    fun _ after obeysAfter _ => ⟨?_, trivial⟩)
  change (after.afterCommand instruction.opcode).Obeys law
  rw [afterCommand]
  split
  · exact obeysAfter
  · exact obeysAfter.setFlag _ _

end Machine

end Keystroke
