import Mathlib
import Keystroke.Proofs.Courses.Programs
import Keystroke.Proofs.FailedSamples.Handling

/-!
# Errors stop programs

An error that no search takes and that is not ignored stops the program, at the line that raised it. A return with
an error raises it at the line that called. A search that is refused has gone to its function already: the machine
stops in the program of the function, though at the address of the line.
-/

namespace Keystroke

open Keystroke.Action

namespace Course

variable {course after : Course} {opcode : Opcode} {error : Error}

/-- Where a running program fails: in which program, and at which address. -/
inductive Fails (course : Course) (opcode : Opcode) (error : Error) : Nat → Option Nat → Prop
  | line : Fails course opcode error course.program course.executed
  /-- Behind the line that called the program, which is in front of where it was to go on. -/
  | caller {frame : Frame} {index : Nat} (raises : opcode = .returnError)
      (top : course.returns.items.head? = some frame) (caller : frame.caller = .program index) :
      Fails course opcode error index
        (frame.address.bind fun address => (course.library.get? index).bind fun program => program.previous address)
  /-- In the program of a function that cannot be called. -/
  | function {name : List UInt8} {program address : Nat} (begins : opcode = .solve ∨ opcode = .integrate)
      (full : course.returns.isFull = true) (refused : error = .plain course.returns.overflow)
      (found : course.library.findGlobal? name = some (program, address)) :
      Fails course opcode error program course.executed

/-- An error of a search leaves the course, or the search has gone to its function. -/
theorem Searches.of_error {search : Caller} (goesOn : course.Searches search (.error error) after)
    (genuine : error.kind.isSignal = false) : after = course ∨
      course.returns.isFull = true ∧ error = .plain course.returns.overflow ∧ ∃ name program address,
        course.library.findGlobal? name = some (program, address) ∧ after = course.goTo program (some address) := by
  generalize raised : (Except.error error : Outcome Unit) = outcome at goesOn
  cases goesOn with
  | fails => exact .inl rfl
  | samples =>
      cases raised
      cases genuine
  | overflows found full =>
      cases raised
      exact .inr ⟨full, rfl, _, _, _, found, rfl⟩
  | finishes ends =>
      rcases ends with rfl | rfl
      · cases raised
      · cases raised
        cases genuine

/-- When a call has been left, there is room for another one. -/
theorem isFull_leave {count : Nat} (nonempty : course.returns.items ≠ [])
    (depth : course.returns.depth ≤ course.returns.limit) : (course.leave (count + 1)).returns.isFull = false := by
  have above : 0 < course.returns.items.length := List.length_pos_of_ne_nil nonempty
  have left : (course.leave (count + 1)).returns.depth = course.returns.items.length - (count + 1) := by
    have left := congrArg List.length (course.callers_leave (count + 1))
    simpa [callers, BoundedStack.depth] using left
  have limit : (course.leave (count + 1)).returns.limit = course.returns.limit := Returns.limit_bare _
  rw [BoundedStack.isFull, left, limit, decide_eq_false_iff_not]
  rw [BoundedStack.depth] at depth
  omega

/-- A search among the calls goes on without an error, or the program fails at its line. -/
theorem Searches.fails_of_error {search : Caller} {count : Nat}
    (goesOn : (course.leave (count + 1)).Searches search (.error error) after)
    (genuine : error.kind.isSignal = false) (nonempty : course.returns.items ≠ [])
    (depth : course.returns.depth ≤ course.returns.limit) : after = course.leave (count + 1) := by
  obtain same | ⟨full, -⟩ := goesOn.of_error genuine
  · exact same
  · rw [isFull_leave nonempty depth] at full
    cases full

theorem items_ne_nil {caller : Caller} {index : Nat} (found : course.callers[index]? = some caller) :
    course.returns.items ≠ [] := by
  intro empty
  rw [callers, empty] at found
  cases found

/-- How a running program fails, unless the error is a signal. -/
theorem Moves.of_error (moves : course.Moves opcode (.error error) after)
    (genuine : error.kind.isSignal = false) (running : course.isRunning = true)
    (depth : course.returns.depth ≤ course.returns.limit) :
    after.isRunning = true ∧ after.errors = course.errors ∧
      course.Fails opcode error after.program after.executed := by
  have ready : course.ready = course := if_pos running
  generalize raised : (Except.error error : Outcome Unit) = outcome at moves
  cases moves with
  | stays => exact ⟨running, rfl, .line⟩
  | goes | calls | starts | runs | forgets => cases raised
  | resumes =>
      split at raised
      · cases raised
        cases genuine
      · cases raised
  | ends =>
      cases raised
      cases genuine
  | returns _ caller _ goesOn =>
      subst raised
      rw [List.head?_eq_getElem?] at caller
      obtain rfl := goesOn.fails_of_error genuine (items_ne_nil caller) depth
      exact ⟨running, rfl, .line⟩
  | solves begins goesOn =>
      subst raised
      rw [ready] at goesOn
      obtain rfl | ⟨full, refused, name, program, address, found, rfl⟩ := goesOn.of_error genuine
      · exact ⟨running, rfl, .line⟩
      · exact ⟨running, rfl, .function (.inl begins) full refused found⟩
  | integrates begins goesOn =>
      subst raised
      rw [ready] at goesOn
      obtain rfl | ⟨full, refused, name, program, address, found, rfl⟩ := goesOn.of_error genuine
      · exact ⟨running, rfl, .line⟩
      · exact ⟨running, rfl, .function (.inr begins) full refused found⟩
  | unwinds _ _ solver goesOn =>
      subst raised
      obtain rfl := goesOn.fails_of_error genuine (items_ne_nil solver) depth
      exact ⟨running, rfl, .line⟩
  | remains | raisesHere => exact ⟨running, rfl, .line⟩
  | raises raises top caller => exact ⟨running, rfl, .caller raises top caller⟩
  | edits _ fails =>
      obtain ⟨program, executed, isRunning, errors⟩ := fails _ raised.symm
      rw [program, executed]
      exact ⟨isRunning.trans running, errors, .line⟩

end Course

namespace Machine

variable {machine left : Machine} {error : Error} {fetched : Program.Fetched × Library}

/-! ## The line that fails -/

/-- A machine that has moved on behind the line that it has fetched, and may have printed it. -/
def movedOn (machine : Machine) (fetched : Program.Fetched × Library) (calls : List HostCall) : Machine :=
  { machine with
    library := fetched.2
    executed := some (machine.address.getD 0)
    address := some fetched.1.next
    calls }

/-- A line is performed by the machine that has moved on. -/
theorem exists_on_step
    (found : machine.library.fetch machine.program (machine.address.getD 0) true = .ok fetched) :
    ∃ calls, step.on machine =
      (perform fetched.1.instruction fetched.1.target).on (machine.movedOn fetched calls) := by
  have printed (moved : Machine) (text : String) : ∃ calls, (printText text).attempt moved = { moved with calls } :=
    exists_printLines_eq moved _
  have reads : (liftM (machine.library.fetch machine.program (machine.address.getD 0) true) :
      Action (Program.Fetched × Library)).on machine = (.ok fetched, machine) := by
    rw [on_lift, found]
  rw [step, on_bind_ok (on_get _)]
  dsimp only
  rw [on_bind_ok reads, on_bind_ok (on_set _ _)]
  split
  · obtain ⟨calls, same⟩ := printed (machine.movedOn fetched machine.calls) fetched.1.instruction.listing
    exact ⟨calls, congrArg _ same⟩
  · exact ⟨machine.calls, rfl⟩

/-- The course of a machine that executes the line that it has fetched. -/
def executing (machine : Machine) (fetched : Program.Fetched × Library) : Course :=
  (machine.movedOn fetched machine.calls).course

/-- What is left when the line of a running machine fails. -/
theorem fails_of_step (running : machine.isRunning = true)
    (depth : machine.returns.depth ≤ machine.returns.limit)
    (found : machine.library.fetch machine.program (machine.address.getD 0) true = .ok fetched)
    (raises : step.on machine = (.error error, left)) (genuine : error.kind.isSignal = false) :
    left.isRunning = true ∧ left.errors = machine.errors ∧
      (machine.executing fetched).Fails fetched.1.instruction.opcode error left.program left.executed := by
  obtain ⟨calls, performs⟩ := exists_on_step found
  have moves : (perform fetched.1.instruction fetched.1.target).Follows
      ((machine.movedOn fetched calls).course.Moves fetched.1.instruction.opcode) (machine.movedOn fetched calls) :=
    follows_perform fetched.1.instruction
  rw [Follows, ← performs, raises] at moves
  refine moves.of_error genuine running ?_
  rw [course, Returns.limit_bare]
  exact (machine.length_course).trans_le depth

/-! ## Errors that are returned with -/

/-- A return with an error to a program, which takes nothing with it. -/
theorem on_returnWithError {frame : Frame} {rest : List Frame} {index : Nat}
    (items : machine.returns.items = frame :: rest) (caller : frame.caller = .program index)
    (saves : frame.savesStack = false) (parks : frame.parksEditor = false)
    (notTaken : (error.kind.isFailedSample && machine.isSolving) = false) :
    (returnWithError error).on machine = (.error error, { machine.afterReturn frame rest machine.editor with
      program := index
      address := frame.address
      executed := frame.address.bind fun address =>
        (machine.library.get? index).bind fun program => program.previous address }) := by
  have pops := on_popReturn_cons items
  rw [returnedEditor, parks, if_neg Bool.false_ne_true] at pops
  have silent : machine.callSavesStack = false := by simp [callSavesStack, BoundedStack.top?, items, saves]
  have library : (machine.afterReturn frame rest machine.editor).library = machine.library :=
    congrArg Course.library (machine.course_afterReturn frame rest machine.editor)
  obtain ⟨_, _, _, _, _, _⟩ := frame
  obtain rfl := caller
  rw [returnWithError, on_bind_ok (on_get _)]
  dsimp only
  rw [notTaken, silent, if_neg Bool.false_ne_true, if_neg Bool.false_ne_true, on_bind_ok pops]
  dsimp only
  rw [on_bind_ok (on_modify _ _), library]
  rfl

/-- The line returns with an error to a program, and nothing was kept for the call. -/
structure ReturnsWith (machine : Machine) (instruction : Instruction) (kind : ErrorKind) (frame : Frame)
    (index : Nat) : Prop where
  opcode : instruction.opcode = .returnError
  number : ∃ number ≠ 0, machine.numberArgument instruction.argument = .ok number ∧
    ErrorKind.ofCode? (number % 0x10000) = some kind
  genuine : kind.isSignal = false
  top : machine.returns.items.head? = some frame
  caller : frame.caller = .program index
  keepsNothing : frame.savesStack = false ∧ frame.parksEditor = false
  notTaken : (kind.isFailedSample && machine.isSolving) = false

theorem effect_returnError {instruction : Instruction} (isReturn : instruction.opcode = .returnError) (memory : Nat)
    (flags : Flags) (target : JumpTarget) :
    effect memory flags instruction target = withNumber instruction.argument returnWithNumber := by
  obtain ⟨opcode, argument⟩ := instruction
  subst isReturn
  rfl

/-- Then the error is raised in front of where the caller was to go on. -/
theorem ReturnsWith.on_step {kind : ErrorKind} {frame : Frame} {index : Nat}
    (returns : machine.ReturnsWith fetched.1.instruction kind frame index)
    (found : machine.library.fetch machine.program (machine.address.getD 0) true = .ok fetched) :
    ∃ left, step.on machine = (.error (.plain kind), left) ∧ left.program = index ∧
      left.executed = frame.address.bind fun address =>
        (fetched.2.get? index).bind fun program => program.previous address := by
  obtain ⟨isReturn, ⟨number, nonzero, isNumber, isKind⟩, genuine, top, caller, ⟨saves, parks⟩, notTaken⟩ := returns
  obtain ⟨calls, performs⟩ := exists_on_step found
  obtain ⟨rest, items⟩ : ∃ rest, machine.returns.items = frame :: rest := List.head?_eq_some_iff.mp top
  obtain ⟨left, raises, places⟩ : ∃ left,
      (returnWithError (.plain kind)).on (machine.movedOn fetched calls) = (.error (.plain kind), left) ∧
        left.program = index ∧ left.executed = frame.address.bind fun address =>
          (fetched.2.get? index).bind fun program => program.previous address :=
    ⟨_, on_returnWithError items caller saves parks notTaken, rfl, rfl⟩
  have moved : (machine.movedOn fetched calls).numberArgument fetched.1.instruction.argument = .ok number := isNumber
  have returns : returnWithNumber number = returnWithError (.plain kind) := by
    rw [returnWithNumber, if_neg nonzero, isKind]
    exact if_neg (by simp [genuine])
  have performed : (effect (machine.movedOn fetched calls).memory (machine.movedOn fetched calls).flags
        fetched.1.instruction fetched.1.target).on (machine.movedOn fetched calls) =
      (returnWithError (.plain kind)).on (machine.movedOn fetched calls) := by
    rw [effect_returnError isReturn, withNumber, on_bind_ok (on_get _), moved, ← returns]
    rfl
  refine ⟨left, ?_, places⟩
  rw [performs, perform, on_bind_ok (on_get _)]
  exact on_bind_error (performed.trans raises) _

/-! ## Stopping -/

/-- What an error does that no search takes and that is not ignored. -/
theorem handle_of_not_taken (genuine : error.kind.isSignal = false) (running : left.isRunning = true)
    (heeds : left.flags.get Flags.errorIgnored = false)
    (notTaken : (error.kind.isFailedSample && left.isSolving) = false) :
    left.handle error = ({ left with address := left.executed } : Machine).stop.report error := by
  rw [handle]
  fun_cases Machine.handleWithin (left.returns.depth + 1) error left
  case case1 isSignal | case2 isSignal | case3 isSignal | case4 isSignal _ | case5 isSignal _ |
      case6 isSignal | case7 isSignal =>
    rw [isSignal] at genuine
    cases genuine
  case case8 idle => simp [running] at idle
  case case9 ignores _ => exact absurd (heeds.symm.trans ignores) Bool.false_ne_true
  case case10 taken | case11 taken =>
    rw [notTaken] at taken
    cases taken
  case case12 => rfl

/-- A machine that an error has stopped. -/
structure StopsWith (machine after : Machine) (error : Error) : Prop where
  isRunning : after.isRunning = false
  task : after.task = none
  lastError : after.lastError = error.kind.code
  /-- The error is behind those that the host has not seen yet. In front of it X may have been printed, as the machine
  stopped, and that may have failed. -/
  reported : ∃ printing : List Error, printing.length ≤ 1 ∧ after.errors = machine.errors ++ printing ++ [error]
  /-- The host is shown the errors by the next slice, and by no later one. -/
  shown : ∀ turns, after.execute turns = (.errors after.errors, { after with errors := [] })

theorem stopsWith_report (errors : left.errors = machine.errors) (error : Error) (address : Option Nat) :
    machine.StopsWith (({ left with address } : Machine).stop.report error) error ∧
      (({ left with address } : Machine).stop.report error).program = left.program ∧
      (({ left with address } : Machine).stop.report error).address = address := by
  obtain ⟨_, _, printing, same, short, -⟩ := ({ left with address } : Machine).exists_stop_eq
  rw [same]
  refine ⟨⟨rfl, rfl, rfl, ⟨printing, short, ?_⟩, fun turns => ?_⟩, rfl, rfl⟩
  · rw [← errors]
    rfl
  · rw [execute, takeNews]
    simp [report, addError, hasNews]

/-- How an error stops a machine: the host is told of it, and the place is that of the line that failed. -/
structure StopsAtFailure (machine after : Machine) (error : Error) (fetched : Program.Fetched × Library) :
    Prop where
  stops : machine.StopsWith after error
  place : (machine.executing fetched).Fails fetched.1.instruction.opcode error after.program after.address
  /-- A line that returns with an error to a program fails in front of where that was to go on. -/
  caller : ∀ kind frame index, machine.ReturnsWith fetched.1.instruction kind frame index →
    after.program = index ∧ after.address = frame.address.bind fun address =>
      (fetched.2.get? index).bind fun program => program.previous address

theorem exists_stopsAtFailure (own : machine.program < machine.library.count)
    (depth : machine.returns.depth ≤ machine.returns.limit) (running : machine.isRunning = true)
    (idle : machine.task = none) (raises : step.on machine = (.error error, left))
    (genuine : error.kind.isSignal = false) (heeds : left.flags.get Flags.errorIgnored = false)
    (notTaken : (error.kind.isFailedSample && left.isSolving) = false) :
    ∃ fetched, machine.library.fetch machine.program (machine.address.getD 0) true = .ok fetched ∧
      machine.StopsAtFailure machine.turn error fetched := by
  obtain ⟨program, isProgram⟩ : ∃ program, machine.library.get? machine.program = some program :=
    ⟨_, List.getElem?_eq_getElem own⟩
  obtain ⟨fetched, found⟩ : ∃ fetched,
      machine.library.fetch machine.program (machine.address.getD 0) true = .ok fetched := by
    have crashes := machine.library.onlyCrashes_fetch isProgram (machine.address.getD 0) true
    cases found : machine.library.fetch machine.program (machine.address.getD 0) true with
    | ok fetched => exact ⟨fetched, rfl⟩
    | error other =>
        -- a crash is no error of the machine
        obtain rfl : other = .plain .crash := by rwa [found] at crashes
        rw [step, on_bind_ok (on_get _)] at raises
        dsimp only at raises
        rw [on_bind, on_lift, found] at raises
        cases raises
        cases genuine
  obtain ⟨runs, errors, fails⟩ := fails_of_step running depth found raises genuine
  have turned : machine.turn = ({ left with address := left.executed } : Machine).stop.report error := by
    rw [turn, idle, performing, raises]
    exact handle_of_not_taken genuine runs heeds notTaken
  obtain ⟨stops, sameProgram, sameAddress⟩ := stopsWith_report errors error left.executed
  rw [turned]
  refine ⟨fetched, found, stops, ?_, fun kind frame index returns => ?_⟩
  · rwa [sameProgram, sameAddress]
  · obtain ⟨other, steps, places⟩ := returns.on_step found
    obtain rfl : left = other := congrArg Prod.snd (raises.symm.trans steps)
    rwa [sameProgram, sameAddress]

theorem IsReachable.depth_le (reachable : machine.IsReachable) : machine.returns.depth ≤ machine.returns.limit := by
  obtain ⟨calls, placed, settled⟩ := reachable.isPlaced
  rw [settled.returns, placed.limit]
  exact placed.depth

/-- An error that no search takes and that is not ignored stops a program, in every machine that can be reached. -/
theorem IsReachable.turn_stopsAtFailure (reachable : machine.IsReachable) (running : machine.isRunning = true)
    (idle : machine.task = none) (raises : step.on machine = (.error error, left))
    (genuine : error.kind.isSignal = false) (heeds : left.flags.get Flags.errorIgnored = false)
    (notTaken : (error.kind.isFailedSample && left.isSolving) = false) :
    ∃ fetched, machine.library.fetch machine.program (machine.address.getD 0) true = .ok fetched ∧
      machine.StopsAtFailure machine.turn error fetched :=
  exists_stopsAtFailure reachable.hasPrograms.own reachable.depth_le running idle raises genuine heeds notTaken

/-- Call a subroutine up to a division by zero there. -/
def failingInputs : List Input :=
  ["PRGM", "LBL \"A\"", "XEQ \"B\"", "RTN", "LBL \"B\"", "0", "1/X", "RTN", "PRGM", "XEQ \"A\""].map .enter ++
    [.execute 4]

/-- A machine in front of a line that fails, in a call. -/
def beforeFailure : Machine := failingInputs.foldl after (initial default)

/-- It stops at the line, which is at address 17. -/
theorem turn_stopsAtFailure_beforeFailure :
    (beforeFailure.returns.items.map Frame.caller = [.program 0] ∧ beforeFailure.turn.address = some 17) ∧
      ∃ fetched, beforeFailure.StopsAtFailure beforeFailure.turn (.plain .divideByZero) fetched := by
  obtain ⟨callers, place, running, idle, error, heeds, notTaken⟩ :
      beforeFailure.returns.items.map Frame.caller = [.program 0] ∧ beforeFailure.turn.address = some 17 ∧
        beforeFailure.isRunning = true ∧ beforeFailure.task = none ∧
        (step.on beforeFailure).1 = .error (.plain .divideByZero) ∧
        (step.on beforeFailure).2.flags.get Flags.errorIgnored = false ∧
        (step.on beforeFailure).2.isSolving = false := by decide +kernel
  rcases raises : step.on beforeFailure with ⟨outcome, left⟩
  rw [raises] at error heeds notTaken
  obtain rfl : outcome = _ := error
  have reachable : beforeFailure.IsReachable := (IsReachable.initial default).afterAll failingInputs
  obtain ⟨fetched, -, stops⟩ :=
    reachable.turn_stopsAtFailure running idle raises rfl heeds (by rw [notTaken, Bool.and_false])
  exact ⟨⟨callers, place⟩, fetched, stops⟩

end Machine

end Keystroke
