import Mathlib
import Keystroke.Proofs.Calls.Performing
import Keystroke.Proofs.Calls.Performed

/-!
# Inputs keep to calls

An input that allowed what calls keep leaves a obeys machine.
-/

namespace Keystroke

open Outcome Keystroke.Action

namespace Machine

variable {law : Calls → Nat → Prop} [Calls.Law law] {machine : Machine}

/-! ## Turns -/

theorem allowed_of_same {instruction : Instruction} (allowed : instruction.IsAllowed law machine)
    {other : Machine} (stack : other.stack = machine.stack) (lastX : other.lastX = machine.lastX)
    (bindings : other.bindings = machine.bindings) (returns : other.returns = machine.returns) :
    instruction.IsAllowed law other :=
  { allowed with names := fun names => (allowed.names names).congr stack lastX bindings returns }

/-- Printing changes nothing but what the host was told. -/
theorem exists_calls_printText (text : String) (machine : Machine) :
    ∃ calls, (printText text).attempt machine = { machine with calls } := by
  have told : ∀ (lines : List String) (before : Machine), ∃ calls,
      before.tellLines lines = { before with calls } := by
    intro lines
    induction lines with
    | nil => exact fun before => ⟨before.calls, rfl⟩
    | cons line lines ih => exact fun before => ih (before.tell (.printed (Text.toBytes line)))
  simp only [attempt, printText, printLines, on_bind, on_get, on_lift]
  cases machine.printerReady with
  | error error => exact ⟨machine.calls, rfl⟩
  | ok ready =>
      cases ready with
      | false => exact ⟨machine.calls, rfl⟩
      | true => exact told [text] machine

theorem leads_continueTask (obeys : machine.Obeys law) (task : Task) :
    (continueTask task).Upholds law machine := by
  cases task with
  | awaitingKey => exact obeys.stays fun _ _ => stays_getKey
  | printingCatalog next => exact obeys.stays fun _ _ => stays_printCatalogFrom next

theorem Obeys.interrupt (obeys : machine.Obeys law) : machine.interrupt.Obeys law := by
  rw [Machine.interrupt]
  split
  · exact obeys.change (fun _ settled => { settled with }) le_rfl
  · exact obeys.change (fun _ settled => { settled with }) le_rfl

/-- An instruction whose command names no variable, and is not performed for another one. -/
theorem entersOnly_of_names_none {instruction : Instruction}
    (names : instruction.opcode.namesVariable = false) (one : instruction.opcode ≠ .singleStep)
    (other : instruction.opcode ≠ .returnError) :
    machine.EnteredOnly (Instruction.IsAllowed law) instruction := by
  intro _ _ _
  rw [if_neg (by simp [one])]
  exact ⟨fun isName => absurd isName (by simp [names]), fun raises => absurd raises other⟩

theorem Obeys.changeEntry (obeys : machine.Obeys law) (change : Entry → Entry) :
    (machine.changeEntry change).Obeys law :=
  obeys.change (fun _ settled => { settled with }) le_rfl

variable [Calls.Maintained law]

theorem leads_step (obeys : machine.Obeys law) (allowed : machine.StepsOnly (Instruction.IsAllowed law)) :
    step.Upholds law machine := by
  refine leads_get ?_
  dsimp only
  have ends := (machine.library.ordinary_fetch machine.program (machine.address.getD 0) true).result
  refine leads_lift obeys ends fun result found => ?_
  obtain ⟨fetched, library⟩ := result
  let moved : Machine :=
    { machine with
      library
      executed := some (machine.address.getD 0)
      address := some fetched.next }
  have obeysMoved : moved.Obeys law := obeys.change (fun _ settled => { settled with }) le_rfl
  refine leads_set ?_
  split
  · obtain ⟨calls, told⟩ := exists_calls_printText fetched.instruction.listing moved
    have obeysTold : ({ moved with calls } : Machine).Obeys law :=
      obeysMoved.change (fun _ settled => { settled with }) le_rfl
    rw [told]
    exact leads_perform obeysTold (allowed_of_same (allowed _ found) rfl rfl rfl rfl) fetched.target
  · exact leads_perform obeysMoved (allowed_of_same (allowed _ found) rfl rfl rfl rfl) fetched.target

theorem Obeys.turn (obeys : machine.Obeys law)
    (allowed : machine.task = none → machine.StepsOnly (Instruction.IsAllowed law)) :
    machine.turn.Obeys law := by
  rw [Machine.turn]
  split
  · have ready : ({ machine with task := none } : Machine).Obeys law :=
      obeys.change (fun _ settled => { settled with }) le_rfl
    exact Obeys.performing (leads_continueTask ready _)
  · next idle => exact Obeys.performing (leads_step obeys (allowed idle))

theorem Obeys.stopInterrupted (obeys : machine.Obeys law) : machine.stopInterrupted.Obeys law := by
  have resumed : ({ machine with isInterrupted := false } : Machine).Obeys law :=
    obeys.change (fun _ settled => { settled with }) le_rfl
  exact resumed.stop.addError (Calls.Law.ordinary (by decide))

theorem Obeys.work (obeys : machine.Obeys law) {turns : Nat}
    (allowed : machine.TurnsOnly (Instruction.IsAllowed law) turns) :
    (work turns machine).Obeys law := by
  induction turns generalizing machine with
  | zero => exact obeys
  | succ turns ih =>
      rw [Machine.work]
      split
      · exact obeys
      split
      · exact obeys.stopInterrupted
      split
      · exact obeys
      · next idle interrupted awaits =>
          obtain ⟨allowedTurn, allowedRest⟩ := allowed (by simpa using idle) (by simpa using interrupted)
            (by simpa using awaits)
          have obeysTurn := obeys.turn allowedTurn
          dsimp only
          split
          · exact obeysTurn
          · next quiet => exact ih obeysTurn (allowedRest (by simpa using quiet))

theorem Obeys.takeNews (obeys : machine.Obeys law) : machine.takeNews.2.Obeys law := by
  rw [Machine.takeNews]
  split
  · exact obeys.forgetErrors
  · split
    · exact obeys.change (fun _ settled => { settled with }) le_rfl
    · exact obeys.change (fun _ settled => { settled with }) le_rfl
    · exact obeys

theorem Obeys.execute (obeys : machine.Obeys law) {turns : Nat}
    (allowed : machine.hasNews = false → machine.TurnsOnly (Instruction.IsAllowed law) turns) :
    (machine.execute turns).2.Obeys law := by
  rw [Machine.execute]
  split
  · exact obeys.takeNews
  · next quiet => exact (obeys.work (allowed (by simpa using quiet))).takeNews

/-! ## Instructions from the keyboard -/

theorem Obeys.singleStep (obeys : machine.Obeys law) (allowed : machine.StepsOnly (Instruction.IsAllowed law)) :
    machine.singleStep.Obeys law := by
  have obeysRunning : ({ machine with isRunning := true } : Machine).Obeys law :=
    obeys.change (fun _ settled => { settled with }) le_rfl
  have steps := leads_step obeysRunning fun fetched found =>
    allowed_of_same (allowed fetched found) rfl rfl rfl rfl
  rw [Machine.singleStep]
  rcases ran : step.on { machine with isRunning := true } with ⟨error | _, left⟩
  · obtain ⟨obeysLeft, permitted⟩ := steps.of_error ran
    have handled := obeysLeft.handle permitted
    dsimp only
    split
    · exact handled.change (fun _ settled => { settled with }) le_rfl
    · exact handled
  · have obeysLeft := (steps.of_ok ran).1
    dsimp only
    split
    · exact obeysLeft.change (fun _ settled => { settled with }) le_rfl
    · exact obeysLeft

theorem Obeys.settle (obeys : machine.Obeys law) {outcome : Outcome Unit}
    (ends : EndsIn (Calls.Law.permitted law) (fun _ => True) outcome) :
    (machine.settle outcome).Obeys law := by
  unfold Machine.settle
  split
  · exact obeys
  · next error =>
      split
      · exact obeys.change (fun _ settled => { settled with }) le_rfl
      · exact obeys.change (fun _ settled => { settled with }) le_rfl
      · exact obeys.change (fun _ settled => { settled with }) le_rfl
      · exact obeys.handle ends

/-- A machine that has nothing to do is stopped. -/
theorem Obeys.rest (obeys : machine.Obeys law) :
    (if machine.isBusy then machine else machine.stop).Obeys law := by
  split
  · exact obeys
  · exact obeys.stop

theorem Obeys.executeTyped (obeys : machine.Obeys law) {instruction : Instruction}
    (allowed : machine.TypedOnly (Instruction.IsAllowed law) instruction) :
    (executeTyped instruction machine).Obeys law := by
  rw [Machine.executeTyped]
  split
  · exact obeys.handle (Calls.Law.ordinary (by decide))
  split
  · exact obeys.handle (Calls.Law.ordinary (by decide))
  · next idle typed =>
      have allowed := allowed (by simpa using idle) (by simpa using typed)
      let ready : Machine := { machine with printsOnStop := machine.isTracing }
      have obeysReady : ready.Obeys law := obeys.change (fun _ settled => { settled with }) le_rfl
      refine Obeys.rest ?_
      split
      · next steps =>
          rw [if_pos steps] at allowed
          exact obeysReady.singleStep fun fetched found =>
            allowed_of_same (allowed fetched found) rfl rfl rfl rfl
      · next performs =>
          rw [if_neg performs] at allowed
          have leads := leads_perform obeysReady (allowed_of_same allowed rfl rfl rfl rfl) .none
          exact leads.1.settle leads.2

theorem Obeys.enterInstruction (obeys : machine.Obeys law) {instruction : Instruction}
    (allowed : machine.EnteredOnly (Instruction.IsAllowed law) instruction) :
    (enterInstruction instruction machine).Obeys law := by
  rw [Machine.enterInstruction]
  split
  · exact Obeys.performing (leads_insertLine obeys instruction)
  · next executes => exact obeys.executeTyped (allowed (by simpa using executes))

theorem leads_finishEntry (obeys : machine.Obeys law) :
    finishEntry.Upholds law machine := by
  refine leads_get ?_
  split
  · exact ⟨obeys, trivial⟩
  · next entry _ =>
      have taken : ({ machine with entry := none } : Machine).Obeys law :=
        obeys.change (fun _ settled => { settled with }) le_rfl
      refine leads_set (leads_lift taken entry.ordinary_value fun value _ => ?_)
      exact ⟨taken.enterInstruction (entersOnly_of_names_none rfl Opcode.noConfusion Opcode.noConfusion), trivial⟩

theorem Obeys.runOrStop (obeys : machine.Obeys law) : machine.runOrStop.Obeys law := by
  rw [Machine.runOrStop]
  split
  · exact obeys.stop
  split
  · exact Obeys.performing (leads_insertLine obeys _)
  · refine Obeys.performing ((leads_finishEntry obeys).bind fun _ after obeysAfter _ => ?_)
    exact ⟨obeysAfter.change (fun _ settled => { settled with }) le_rfl, trivial⟩

theorem Obeys.leave (obeys : machine.Obeys law) : machine.leave.Obeys law := by
  rw [Machine.leave]
  split
  · exact obeys.stop
  split
  · exact obeys.change (fun _ settled => { settled with }) le_rfl
  split
  · exact obeys.change (fun _ settled => { settled with }) le_rfl
  · exact obeys.change (fun _ settled => { settled with editor := by simp }) le_rfl

theorem Obeys.toggleProgramming (obeys : machine.Obeys law) : machine.toggleProgramming.Obeys law :=
  (Obeys.performing (leads_finishEntry obeys)).change (fun _ settled => { settled with }) le_rfl

/-! ## Lines -/

theorem Obeys.enterParsed (obeys : machine.Obeys law) {parsed : Outcome TypedLine}
    (ordinary : IsOrdinary parsed) (allowed : machine.ParsedOnly (Instruction.IsAllowed law) parsed) :
    (machine.enterParsed parsed).2.Obeys law := by
  rcases parsed with error | _ | instruction | opcode
  · exact obeys.handle (Calls.Law.ordinary ordinary)
  · exact obeys
  · exact obeys.enterInstruction allowed
  · exact obeys.change (fun _ settled => { settled with }) le_rfl

theorem ends_answeredValue (free : Nat → Prop) (line : String) :
    Ends (Value.Fits free) (answeredValue line) := by
  have text (bytes : List UInt8) : Ends (Value.Fits free) (Value.ofText bytes) :=
    (ordinary_ofText bytes).imp fun _ same => same ▸ Value.fits_text bytes
  refine (TypedLine.ordinary_parse line).bind fun parsed _ => ?_
  split
  · exact trivial
  · exact text _
  · exact text _
  · exact ends_fail rfl

theorem stays_answer {calls : Calls} {floor : Nat} (line : String) :
    (do if !line.isEmpty then setX (← answeredValue line) : Action Unit).Stays calls floor
      fun _ _ => True := by
  refine stays_ite (fun _ => ?_) fun _ => stays_pure fun _ _ => trivial
  exact stays_lift (ends_answeredValue (calls.free floor) line) fun _ fits => stays_setX fits

omit [Calls.Maintained law] in
theorem Obeys.leads_storeAnswer (obeys : machine.Obeys law) {prompt : Prompt} {line : String}
    (allowed : ∀ answered, (do if !line.isEmpty then setX (← answeredValue line) : Action Unit).on
      machine = (.ok (), answered) → Instruction.IsAllowed law ⟨.store, prompt.argument⟩ answered) :
    (storeAnswer prompt line).Upholds law machine := by
  have answers := obeys.stays fun _ _ => stays_answer line
  have parts : storeAnswer prompt line =
      ((do if !line.isEmpty then setX (← answeredValue line) : Action Unit) >>= fun _ => do
        store prompt.argument (← (← get).stack.x)
        modify fun machine => machine.setFlag Flags.liftDisabled false) := by
    cases isEmpty : line.isEmpty <;> simp [storeAnswer, isEmpty]
  rw [parts]
  refine answers.bind_run fun _ after ran obeysAfter => obeysAfter.leads fun calls same settled => ?_
  refine leads_get (leads_lift settled (ends_x settled) fun x fits => ?_)
  exact (leads_store settled (same ▸ (allowed after ran).names rfl) fits).bind
    fun _ last settledLast _ => ⟨{ settledLast with }, trivial⟩

theorem Obeys.answerQuestion (obeys : machine.Obeys law) {prompt : Prompt} {line : List Char}
    (allowed : isWord line "EXIT" = false →
      machine.AnswersOnly (Instruction.IsAllowed law) prompt (String.ofList line)) :
    (answerQuestion prompt line machine).2.Obeys law := by
  have asked : ({ machine with prompt := none } : Machine).Obeys law :=
    obeys.change (fun _ settled => { settled with }) le_rfl
  rw [Machine.answerQuestion]
  split
  · exact asked
  · next answers =>
      have leads := asked.leads_storeAnswer (allowed (by simpa using answers))
      split
      · next left ran =>
          exact (leads.of_ok ran).1.change (fun _ settled => { settled with }) le_rfl
      · next error left ran =>
          obtain ⟨obeysLeft, permitted⟩ := leads.of_error ran
          have again : ({ left with prompt := some prompt } : Machine).Obeys law :=
            obeysLeft.change (fun _ settled => { settled with }) le_rfl
          exact again.handle permitted

theorem ordinary_parseArgument (opcode : Opcode) (text : String) :
    IsOrdinary (TypedLine.parseArgument opcode text) :=
  TypedLine.ordinary_withArgument opcode _

theorem Obeys.enterPending (obeys : machine.Obeys law) {opcode : Opcode} {line : String}
    (allowed : machine.CompletesOnly (Instruction.IsAllowed law) opcode line) :
    (({ machine with pending := none, pendingDigits := [] } : Machine).enterParsed
      (TypedLine.parseArgument opcode line)).2.Obeys law := by
  have ready : ({ machine with pending := none, pendingDigits := [] } : Machine).Obeys law :=
    obeys.change (fun _ settled => { settled with }) le_rfl
  exact ready.enterParsed (ordinary_parseArgument opcode line) allowed

theorem Obeys.enterCommand (obeys : machine.Obeys law) {line : String}
    (allowed : machine.CommandsOnly (Instruction.IsAllowed law) line) : (enterCommand line machine).2.Obeys law := by
  rw [CommandsOnly] at allowed
  rw [Machine.enterCommand]
  cases waits : machine.pending with
  | some opcode =>
      rw [waits] at allowed
      exact obeys.enterPending allowed
  | none =>
      rw [waits] at allowed
      exact obeys.enterParsed (TypedLine.ordinary_parse line) allowed

theorem Obeys.enter (obeys : machine.Obeys law) {line : String}
    (allowed : machine.LinesOnly (Instruction.IsAllowed law) line) :
    (enter line machine).2.Obeys law := by
  rw [Machine.enter]
  rw [LinesOnly] at allowed
  generalize Text.trim line.toList = text at allowed ⊢
  cases asks : machine.prompt with
  | some prompt =>
      rw [asks] at allowed
      exact obeys.answerQuestion allowed
  | none =>
      rw [asks] at allowed
      have finishes := leads_finishEntry obeys
      rcases ran : finishEntry.on machine with ⟨error | _, left⟩
      · obtain ⟨obeysLeft, permitted⟩ := finishes.of_error ran
        exact obeysLeft.handle permitted
      · have obeysLeft := (finishes.of_ok ran).1
        dsimp only
        split
        · exact obeysLeft.toggleProgramming
        split
        · exact obeysLeft.runOrStop
        split
        · exact obeysLeft.leave
        · next notProgram notRun notExit =>
            exact obeysLeft.enterCommand (allowed (by simpa using notExit) (by simpa using notProgram)
              (by simpa using notRun) left ran)

/-! ## Keys -/

theorem length_push_le {queue : KeyQueue} (fits : queue.keys.length ≤ KeyQueue.capacity) (key : Key) :
    (queue.push key).2.keys.length ≤ KeyQueue.capacity := by
  rw [KeyQueue.push]
  split
  · exact fits
  · next room =>
      simp only [List.length_append, List.length_singleton]
      omega

theorem Obeys.queueKey (obeys : machine.Obeys law) (key : Key) : (machine.queueKey key).Obeys law := by
  rw [Machine.queueKey]
  split
  · exact obeys.stop
  · exact obeys.change (fun _ settled => { settled with keys := length_push_le settled.keys key }) le_rfl

theorem Obeys.pressForPending (obeys : machine.Obeys law) {opcode : Opcode} {key : Key}
    (entered : key.code = Key.enter →
      machine.CompletesOnly (Instruction.IsAllowed law) opcode (String.ofList machine.pendingDigits))
    (completed : ∀ digit ∈ Key.digit? key.code,
      machine.CompletesOnly (Instruction.IsAllowed law) opcode (String.ofList (machine.pendingDigits ++ [digit]))) :
    (machine.pressForPending opcode key).Obeys law := by
  have waits (digits : List Char) : ({ machine with pendingDigits := digits } : Machine).Obeys law :=
    obeys.change (fun _ settled => { settled with }) le_rfl
  rw [Machine.pressForPending]
  split
  · exact obeys
  split
  · exact obeys.leave
  split
  · split
    · exact obeys.change (fun _ settled => { settled with }) le_rfl
    · exact waits _
  split
  · next isEnter => exact obeys.enterPending (entered isEnter)
  split
  · exact obeys
  · next digit isDigit =>
      dsimp only
      split
      · exact obeys.enterPending (completed digit isDigit)
      · exact waits _

theorem Obeys.pressBackspace (obeys : machine.Obeys law) : machine.pressBackspace.Obeys law := by
  rw [Machine.pressBackspace]
  split
  · split
    · exact obeys.change (fun _ settled => { settled with }) le_rfl
    · exact obeys.change (fun _ settled => { settled with
        stack := settled.stack.setX Value.within_zero }) le_rfl
  · split
    · refine Obeys.performing ((leads_deleteLine obeys).bind fun _ after obeysAfter _ => ?_)
      exact ⟨obeysAfter, trivial⟩
    · exact obeys.enterInstruction (entersOnly_of_names_none rfl Opcode.noConfusion Opcode.noConfusion)

theorem Obeys.pressCommand (obeys : machine.Obeys law) {key : Key}
    (allowed : ∀ opcode ∈ key.opcode?, ∀ left, finishEntry.on machine = (.ok (), left) →
      left.EnteredOnly (Instruction.IsAllowed law) (.plain opcode)) : (machine.pressCommand key).Obeys law := by
  rw [Machine.pressCommand]
  split
  · next opcode isCommand =>
      refine Obeys.performing ((leads_finishEntry obeys).bind_run fun _ left ran obeysLeft => ?_)
      refine leads_ite (fun _ => ⟨?_, trivial⟩) fun _ => ⟨?_, trivial⟩
      · exact obeysLeft.enterInstruction (allowed opcode isCommand left ran)
      · exact obeysLeft.change (fun _ settled => { settled with }) le_rfl
  · exact obeys

theorem Obeys.pressPlain (obeys : machine.Obeys law) {key : Key}
    (allowed : ∀ opcode ∈ key.opcode?, ∀ left, finishEntry.on machine = (.ok (), left) →
      left.EnteredOnly (Instruction.IsAllowed law) (.plain opcode)) : (machine.pressPlain key).Obeys law := by
  have cleared : ({ machine with entry := none } : Machine).Obeys law :=
    obeys.change (fun _ settled => { settled with }) le_rfl
  rw [Machine.pressPlain]
  split
  · exact obeys.changeEntry _
  split
  · exact obeys.changeEntry _
  split
  · exact obeys.changeEntry _
  split
  · exact obeys.changeEntry _
  split
  · exact obeys.pressBackspace
  split
  · exact cleared.leave
  split
  · exact obeys.runOrStop
  · exact obeys.pressCommand allowed

theorem Obeys.press (obeys : machine.Obeys law) {key : Key}
    (allowed : machine.KeysOnly (Instruction.IsAllowed law) key) :
    (machine.press key).Obeys law := by
  rw [Machine.press]
  split
  · exact obeys.queueKey key
  · next free =>
      have allowed := allowed (by simpa using free)
      cases waits : machine.pending with
      | some opcode =>
          rw [waits] at allowed
          exact obeys.pressForPending allowed.1 allowed.2
      | none =>
          rw [waits] at allowed
          dsimp only
          split
          · exact obeys.pressPlain allowed
          split
          · exact obeys.toggleProgramming
          · exact obeys.pressCommand allowed

/-- One input for which a law has nothing against what is performed. -/
theorem Obeys.after (obeys : machine.Obeys law) {input : Input}
    (allowed : input.PerformsOnly (Instruction.IsAllowed law) machine) :
    (machine.after input).Obeys law := by
  cases input with
  | enter line => exact obeys.enter allowed
  | press key => exact obeys.press allowed
  | execute turns => exact obeys.execute allowed
  | interrupt => exact obeys.interrupt
  | draw generator => exact obeys.change (fun _ settled => { settled with }) le_rfl

end Machine

end Keystroke
