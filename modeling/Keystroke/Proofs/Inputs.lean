import Mathlib
import Keystroke.Proofs.Calls.Performed
import Keystroke.Proofs.Evolution.Performing

/-!
# What lasts from input to input

Lines, keys and slices of work change what commands work on only by what they execute, and errors only by the
calls that they leave. So a property of this that commands keep, however they end, is kept by every input. What
commands leave of a machine is such a property: only the host makes requests to stop.
-/

namespace Keystroke

open Keystroke.Action

namespace Machine

/-- The programs, calls, searches and variables of a machine, its editor and its stack, and whether it was
requested to stop. The rest are modes, what is typed, and what is shown and told. -/
structure Core where
  program : Nat
  library : Library
  returns : Returns
  solver : Solver
  integrator : Integrator
  bindings : Variables
  editor : Option Editor
  stack : Stack
  isInterrupted : Bool

/-- What commands work on. -/
def core (machine : Machine) : Core where
  program := machine.program
  library := machine.library
  returns := machine.returns
  solver := machine.solver
  integrator := machine.integrator
  bindings := machine.bindings
  editor := machine.editor
  stack := machine.stack
  isInterrupted := machine.isInterrupted

/-- Commands keep a property, also when they fail, and it does not depend on modes and on what is typed. Other
values on the stack and a request that is heeded do not matter to it. -/
structure IsLasting (property : Machine → Prop) : Prop where
  core : ∀ {machine left : Machine}, property machine → left.core = machine.core → property left
  put : ∀ {machine : Machine} {stack : Stack}, property machine → (machine.stack.IsFitted → stack.IsFitted) →
    property { machine with stack }
  heed : ∀ {machine : Machine}, property machine → property { machine with isInterrupted := false }
  leave : ∀ {machine : Machine}, property machine → property { machine with editor := none }
  fetch : ∀ {machine : Machine} {address : Nat} {fetched : Program.Fetched × Library}, property machine →
    machine.library.fetch machine.program address true = .ok fetched →
      property { machine with library := fetched.2 }
  perform : ∀ (instruction : Instruction) (target : JumpTarget) {machine : Machine}, property machine →
    property ((perform instruction target).on machine).2
  failSample : ∀ {machine : Machine}, property machine → property (failSample.on machine).2
  insertLine : ∀ (instruction : Instruction) {machine : Machine}, property machine →
    property ((insertLine instruction).on machine).2
  deleteLine : ∀ {machine : Machine}, property machine → property (deleteLine.on machine).2
  store : ∀ (argument : Argument) (value : Value) {machine : Machine}, property machine →
    property ((store argument value).on machine).2

/-! ## What is printed, and keys -/

section

variable {machine left : Machine} {outcome : Outcome Unit}

theorem core_tellLines (machine : Machine) (lines : List String) :
    (machine.tellLines lines).core = machine.core := by
  induction lines generalizing machine with
  | nil => rfl
  | cons line lines ih => exact ih (machine.tell (.printed (Text.toBytes line)))

theorem core_printLines {lines : Machine → Outcome (List String)}
    (prints : (printLines lines).on machine = (outcome, left)) : left.core = machine.core := by
  rw [printLines, on_bind_ok (on_get _), on_bind, on_lift] at prints
  cases ready : machine.printerReady with
  | error error =>
      rw [ready] at prints
      cases prints
      rfl
  | ok isReady =>
      rw [ready] at prints
      cases isReady with
      | false =>
          cases prints
          rfl
      | true =>
          dsimp only at prints
          rw [if_pos rfl, on_bind, on_lift] at prints
          cases made : lines machine with
          | error error =>
              rw [made] at prints
              cases prints
              rfl
          | ok lines =>
              rw [made] at prints
              cases prints
              exact core_tellLines machine lines

theorem core_printText (machine : Machine) (text : String) :
    ((printText text).attempt machine).core = machine.core :=
  @core_printLines machine _ _ (fun _ => .ok [text]) rfl

theorem core_printCatalogFrom {place : Nat} (prints : (printCatalogFrom place).on machine = (outcome, left)) :
    left.core = machine.core := by
  rw [printCatalogFrom, on_bind_ok (on_get _), on_bind, on_lift] at prints
  cases ready : machine.printerReady with
  | error error =>
      rw [ready] at prints
      cases prints
      rfl
  | ok isReady =>
      rw [ready] at prints
      cases isReady with
      | false =>
          cases prints
          rfl
      | true =>
          dsimp only at prints
          rw [if_pos rfl] at prints
          split at prints
          · cases prints
            rfl
          · cases prints
            exact core_tellLines machine _

end

namespace IsLasting

variable {property : Machine → Prop} (lasting : IsLasting property) {machine : Machine}

include lasting

omit lasting in
theorem ite {first second : Machine} (holds : property first) (holdsToo : property second)
    (condition : Prop) [Decidable condition] : property (if condition then first else second) := by
  split
  · exact holds
  · exact holdsToo

/-! ## Errors and turns -/

theorem stop (holds : property machine) : property machine.stop := by
  rw [Machine.stop]
  dsimp only
  split
  · split
    · next left ran => exact lasting.core holds ((core_printLines ran).trans rfl)
    · next error left ran =>
        have printed : left.core = machine.core := (core_printLines ran).trans rfl
        exact lasting.core holds printed
  · exact lasting.core holds rfl

theorem skipLine (holds : property machine) : property machine.skipLine := by
  rw [Machine.skipLine]
  split
  · split
    · exact lasting.core holds rfl
    · exact holds
  · exact holds

theorem handleWithin (holds : property machine) (fuel : Nat) (error : Error) :
    property (Machine.handleWithin fuel error machine) := by
  fun_induction Machine.handleWithin fuel error machine with
  | case1 | case2 | case3 | case5 => exact holds
  | case7 | case8 | case9 => exact lasting.core holds rfl
  | case4 => exact lasting.skipLine holds
  | case6 => exact lasting.stop holds
  | case12 fuel error machine =>
      have rolledBack : property { machine with address := machine.executed } := lasting.core holds rfl
      exact lasting.core (lasting.stop rolledBack) rfl
  -- The solver takes the error as a failed sample, which may lead to another error.
  | case10 _ _ _ _ _ after ran =>
      have sampled := lasting.failSample holds
      rwa [ran] at sampled
  | case11 _ _ _ _ _ next after ran _ _ _ _ _ _ _ ih =>
      have sampled := lasting.failSample holds
      rw [ran] at sampled
      exact ih sampled

theorem handle (holds : property machine) (error : Error) : property (machine.handle error) :=
  lasting.handleWithin holds _ error

theorem performing {action : Action Unit} (done : property (action.on machine).2) :
    property (Machine.performing action machine) := by
  rw [Machine.performing]
  split
  · next left ran => rwa [ran] at done
  · next error left ran =>
      rw [ran] at done
      exact lasting.handle done error

theorem step (holds : property machine) : property (step.on machine).2 := by
  rw [Machine.step, on_bind_ok (on_get _)]
  dsimp only
  rw [on_bind, on_lift]
  cases found : machine.library.fetch machine.program (machine.address.getD 0) true with
  | error error => exact holds
  | ok fetched =>
      have moved := lasting.fetch holds found
      dsimp only
      rw [on_bind_ok (on_set _ _)]
      refine lasting.perform _ _ (lasting.core moved ?_)
      split
      · exact (core_printText _ _).trans rfl
      · rfl

theorem getKey (holds : property machine) : property (getKey.on machine).2 := by
  rw [Machine.getKey, on_bind_ok (on_get _)]
  split
  · next key keys _ =>
      have taken : property { machine with keys } := lasting.core holds rfl
      refine lasting.put taken fun fitted => ?_
      split
      · exact fitted.setX _
      · exact fitted.push _
  · exact lasting.core holds rfl

theorem continueTask (task : Task) (holds : property machine) : property ((continueTask task).on machine).2 := by
  cases task with
  | awaitingKey => exact lasting.getKey holds
  | printingCatalog next => exact lasting.core holds (core_printCatalogFrom rfl)

theorem turn (holds : property machine) : property machine.turn := by
  rw [Machine.turn]
  split
  · exact lasting.performing (lasting.continueTask _ (lasting.core holds rfl))
  · exact lasting.performing (lasting.step holds)

/-! ## Lines -/

theorem singleStep (holds : property machine) : property machine.singleStep := by
  have running : property { machine with isRunning := true } := lasting.core holds rfl
  have stepped := lasting.step running
  rw [Machine.singleStep]
  rcases ran : Machine.step.on { machine with isRunning := true } with ⟨error | _, left⟩
  · rw [ran] at stepped
    have handled := lasting.handle stepped error
    dsimp only
    split
    · exact lasting.core handled rfl
    · exact handled
  · rw [ran] at stepped
    dsimp only
    split
    · exact lasting.core stepped rfl
    · exact stepped

theorem settle (holds : property machine) (outcome : Outcome Unit) : property (machine.settle outcome) := by
  unfold Machine.settle
  split
  · exact holds
  · split
    case h_4 => exact lasting.handle holds _
    all_goals exact lasting.core holds rfl

theorem executeTyped (holds : property machine) (instruction : Instruction) :
    property (Machine.executeTyped instruction machine) := by
  have rests {left : Machine} (isLeft : property left) : property (if left.isBusy then left else left.stop) :=
    ite isLeft (lasting.stop isLeft) _
  rw [Machine.executeTyped]
  split
  · exact lasting.handle holds _
  split
  · exact lasting.handle holds _
  · refine rests ?_
    split
    · exact lasting.singleStep (lasting.core holds rfl)
    · have ready : property { machine with printsOnStop := machine.isTracing } := lasting.core holds rfl
      exact lasting.settle (lasting.perform instruction .none ready) _

theorem enterInstruction (holds : property machine) (instruction : Instruction) :
    property (Machine.enterInstruction instruction machine) :=
  ite (lasting.performing (lasting.insertLine instruction holds))
    (lasting.executeTyped holds instruction) _

theorem finishEntry (holds : property machine) : property (finishEntry.on machine).2 := by
  rw [Machine.finishEntry, on_bind_ok (on_get _)]
  dsimp only
  split
  · exact holds
  · next entry _ =>
      have entered : property { machine with entry := none } := lasting.core holds rfl
      rw [on_bind_ok (on_set _ _), on_bind, on_lift]
      cases entry.value with
      | error error => exact entered
      | ok value => exact lasting.enterInstruction entered _

/-- The number that was keyed in is finished first. -/
theorem finishEntry_bind (holds : property machine) {next : Unit → Action Unit}
    (goesOn : ∀ {left : Machine}, property left → property ((next ()).on left).2) :
    property ((Machine.finishEntry >>= next).on machine).2 := by
  have finished := lasting.finishEntry holds
  rw [on_bind]
  rcases ran : Machine.finishEntry.on machine with ⟨error | _, left⟩
  all_goals rw [ran] at finished
  · exact finished
  · exact goesOn finished

theorem runOrStop (holds : property machine) : property machine.runOrStop := by
  have runs : property (Action.on (do
      Machine.finishEntry
      modify fun machine => { machine with prompt := none, isRunning := true }) machine).2 :=
    lasting.finishEntry_bind holds fun finished => lasting.core finished rfl
  exact ite (lasting.stop holds)
    (ite (lasting.performing (lasting.insertLine _ holds)) (lasting.performing runs) _) _

theorem leaveOff (holds : property machine) : property machine.leave := by
  rw [Machine.leave]
  split
  · exact lasting.stop holds
  split
  · exact lasting.core holds rfl
  split
  · exact lasting.core holds rfl
  · exact lasting.leave holds

theorem toggleProgramming (holds : property machine) : property machine.toggleProgramming :=
  lasting.core (lasting.performing (lasting.finishEntry holds)) rfl

theorem storeAnswer (holds : property machine) (prompt : Prompt) (line : String) :
    property ((storeAnswer prompt line).on machine).2 := by
  have stores {answered : Machine} (isAnswered : property answered) : property (Action.on (do
      Machine.store prompt.argument (← (← get).stack.x)
      modify fun machine => machine.setFlag Flags.liftDisabled false) answered).2 := by
    rw [on_bind_ok (on_get _), on_bind, on_lift]
    cases answered.stack.x with
    | error error => exact isAnswered
    | ok x =>
        have stored := lasting.store prompt.argument x isAnswered
        dsimp only
        rw [on_bind]
        rcases ran : Action.on (Machine.store prompt.argument x) answered with ⟨error | _, left⟩
        all_goals rw [ran] at stored
        · exact stored
        · exact lasting.core stored rfl
  rw [Machine.storeAnswer]
  dsimp only
  rw [on_ite]
  split
  · rw [on_bind, on_lift]
    cases answeredValue line with
    | error error => exact holds
    | ok value => exact stores (lasting.put holds fun fitted => fitted.setX value)
  · exact stores holds

theorem answerQuestion (holds : property machine) (prompt : Prompt) (line : List Char) :
    property (Machine.answerQuestion prompt line machine).2 := by
  rw [Machine.answerQuestion]
  split
  · exact lasting.core holds rfl
  · have asked : property { machine with prompt := none } := lasting.core holds rfl
    have answered := lasting.storeAnswer asked prompt (String.ofList line)
    split
    · next left ran =>
        rw [ran] at answered
        exact lasting.core answered rfl
    · next error left ran =>
        rw [ran] at answered
        have asksAgain : property { left with prompt := some prompt } := lasting.core answered rfl
        exact lasting.handle asksAgain error

theorem enterParsed (holds : property machine) (parsed : Outcome TypedLine) :
    property (machine.enterParsed parsed).2 := by
  rcases parsed with error | _ | instruction | opcode
  · exact lasting.handle holds error
  · exact holds
  · exact lasting.enterInstruction holds instruction
  · exact lasting.core holds rfl

theorem notPending (holds : property machine) : property { machine with pending := none, pendingDigits := [] } :=
  lasting.core holds rfl

theorem enterCommand (holds : property machine) (line : String) :
    property (Machine.enterCommand line machine).2 := by
  rw [Machine.enterCommand]
  split
  · exact lasting.enterParsed (lasting.notPending holds) _
  · exact lasting.enterParsed holds _

theorem enter (holds : property machine) (line : String) : property (machine.enter line).2 := by
  rw [Machine.enter]
  split
  · exact lasting.answerQuestion holds _ _
  · have finished := lasting.finishEntry holds
    split
    · next error left ran =>
        rw [ran] at finished
        exact lasting.handle finished error
    · next left ran =>
        rw [ran] at finished
        split
        · exact lasting.toggleProgramming finished
        split
        · exact lasting.runOrStop finished
        split
        · exact lasting.leaveOff finished
        · exact lasting.enterCommand finished _

/-! ## Keys -/

theorem finishPending (holds : property machine) (opcode : Opcode) (digits : List Char) :
    property (Machine.finishPending opcode digits machine) :=
  lasting.enterParsed (lasting.notPending holds) _

theorem pressForPending (holds : property machine) (opcode : Opcode) (key : Key) :
    property (machine.pressForPending opcode key) := by
  rw [Machine.pressForPending]
  split
  · exact holds
  split
  · exact lasting.leaveOff holds
  split
  · split <;> exact lasting.core holds rfl
  split
  · exact lasting.finishPending holds opcode _
  split
  · exact holds
  · dsimp only
    split
    · exact lasting.finishPending holds opcode _
    · exact lasting.core holds rfl

theorem pressBackspace (holds : property machine) : property machine.pressBackspace := by
  have deletes : property ((do let _ ← Machine.deleteLine : Action Unit).on machine).2 := by
    have deleted := lasting.deleteLine holds
    rw [on_bind]
    rcases ran : Machine.deleteLine.on machine with ⟨error | _, left⟩
    all_goals
      rw [ran] at deleted
      exact deleted
  rw [Machine.pressBackspace]
  split
  · split
    · exact lasting.core holds rfl
    · have cleared : property { machine with stack := machine.stack.setX .zero } :=
        lasting.put holds fun fitted => fitted.setX .zero
      exact lasting.core cleared rfl
  · exact ite (lasting.performing deletes) (lasting.enterInstruction holds _) _

theorem pressOpcode (holds : property machine) (opcode : Opcode) :
    property ((pressOpcode opcode).on machine).2 := by
  refine lasting.finishEntry_bind holds fun finished => ?_
  split
  · exact lasting.enterInstruction finished _
  · exact lasting.core finished rfl

theorem pressCommand (holds : property machine) (key : Key) : property (machine.pressCommand key) := by
  rw [Machine.pressCommand]
  split
  · exact lasting.performing (lasting.pressOpcode holds _)
  · exact holds

theorem pressPlain (holds : property machine) (key : Key) : property (machine.pressPlain key) := by
  rw [Machine.pressPlain]
  split
  · exact lasting.core holds rfl
  split
  · exact lasting.core holds rfl
  split
  · exact lasting.core holds rfl
  split
  · exact lasting.core holds rfl
  split
  · exact lasting.pressBackspace holds
  split
  · exact lasting.leaveOff (lasting.core holds rfl)
  split
  · exact lasting.runOrStop holds
  · exact lasting.pressCommand holds key

theorem press (holds : property machine) (key : Key) : property (machine.press key) := by
  have pushed : property { machine with keys := (machine.keys.push key).2 } := lasting.core holds rfl
  have queued : property (machine.queueKey key) := ite (lasting.stop holds) pushed _
  rw [Machine.press]
  split
  · exact queued
  split
  · exact lasting.pressForPending holds _ key
  split
  · exact lasting.pressPlain holds key
  split
  · exact lasting.toggleProgramming holds
  · exact lasting.pressCommand holds key

/-! ## Slices -/

theorem takeNews (holds : property machine) : property machine.takeNews.2 := by
  rw [Machine.takeNews]
  split
  · exact lasting.core holds rfl
  · split
    · exact lasting.core holds rfl
    · exact lasting.core holds rfl
    · exact holds

theorem stopInterrupted (holds : property machine) : property machine.stopInterrupted := by
  exact lasting.core (lasting.stop (lasting.heed holds)) rfl

theorem work (holds : property machine) (turns : Nat) : property (Machine.work turns machine) := by
  induction turns generalizing machine with
  | zero => exact holds
  | succ turns ih =>
      rw [Machine.work]
      split
      · exact holds
      split
      · exact lasting.stopInterrupted holds
      split
      · exact holds
      · exact ite (lasting.turn holds) (ih (lasting.turn holds)) _

theorem execute (holds : property machine) (turns : Nat) : property (machine.execute turns).2 := by
  rw [Machine.execute]
  split
  · exact lasting.takeNews holds
  · exact lasting.takeNews (lasting.work holds turns)

/-- Whatever the host does but request the machine to stop. -/
theorem after (holds : property machine) {input : Input} (silent : input ≠ .interrupt) :
    property (machine.after input) := by
  cases input with
  | enter line => exact lasting.enter holds line
  | press key => exact lasting.press holds key
  | execute turns => exact lasting.execute holds turns
  | interrupt => exact absurd rfl silent
  | draw generator => exact lasting.core holds rfl

end IsLasting

/-! ## What inputs leave -/

variable {start machine other : Machine}

theorem Evolves.of_core (evolved : start.Evolves true machine) (same : other.core = machine.core) :
    start.Evolves true other := by
  have request : other.isInterrupted = machine.isInterrupted := congrArg Core.isInterrupted same
  have table : other.bindings = machine.bindings := congrArg Core.bindings same
  have stack : other.stack = machine.stack := congrArg Core.stack same
  exact
    { isCalm := by rw [IsCalm, IsCalm, request]; exact evolved.isCalm
      hasMadeTable := by rw [HasMadeTable, HasMadeTable, table]; exact evolved.hasMadeTable
      isFitted := by rw [stack]; exact evolved.isFitted
      course := Bool.noConfusion }

theorem isLasting_evolves (start : Machine) : IsLasting (start.Evolves true) where
  core evolved same := evolved.of_core same
  put evolved fits :=
    { evolved with isFitted := fun fitted => fits (evolved.isFitted fitted), course := Bool.noConfusion }
  heed evolved := { evolved with isCalm := fun _ => rfl, course := Bool.noConfusion }
  leave evolved := { evolved with course := Bool.noConfusion }
  fetch evolved _ := { evolved with course := Bool.noConfusion }
  perform instruction target machine evolved :=
    evolved.trans (evolves_perform instruction target (.refl _ machine)).moved
  failSample evolved := evolves_failSample evolved
  insertLine instruction _ evolved := evolves_insertLine instruction evolved
  deleteLine evolved := evolves_deleteLine evolved
  store argument value _ evolved := evolves_store argument value evolved

/-- Whatever the host does but request the machine to stop. -/
theorem evolves_after (machine : Machine) {input : Input} (silent : input ≠ .interrupt) :
    machine.Evolves true (machine.after input) :=
  (isLasting_evolves machine).after (.refl true machine) silent

end Machine

end Keystroke
