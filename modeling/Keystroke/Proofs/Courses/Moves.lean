import Mathlib
import Keystroke.Proofs.Courses.Searches

/-!
# How lines move a machine

What a command does to the course of a machine: it stays, jumps, calls, returns, begins or goes on with a
search, or leaves calls with an error. While no program runs, what jumps, returns or searches forgets the calls
first. Commands that edit programs are the only ones that may change more.
-/

namespace Keystroke

open Keystroke.Action

/-- Commands that edit programs or move between their lines. They are not for running programs. -/
def Opcode.editsPrograms : Opcode → Bool
  | .clearProgram | .gotoLine | .gotoNewProgram | .singleStep | .backStep | .deleteLines | .clearAll => true
  | _ => false

namespace Library

/-- The address behind a line, unless that is the end. -/
def skipped (library : Library) (program : Nat) : Option Nat → Option Nat
  | none => none
  | some address =>
    match library.get? program with
    | none => some address
    | some program =>
      if address < program.endAddress then some (program.next address) else some address

/-- A jump leads into the current program, or to a global label. -/
def IsTarget (library : Library) (current program : Nat) : Prop :=
  program = current ∨ ∃ name address, library.findGlobal? name = some (program, address)

end Library

namespace Returns

/-- What was left bare does not matter below the calls that are left. -/
theorem bare_drop (returns : Returns) (count : Nat) :
    Returns.bare { returns.bare with items := returns.bare.items.drop count } =
      Returns.bare { returns with items := returns.items.drop count } := by
  obtain ⟨limit, overflow, items⟩ := returns
  cases items with
  | nil => rfl
  | cons frame rest =>
      cases count with
      | zero => rfl
      | succ count => rfl

theorem limit_bare (returns : Returns) : returns.bare.limit = returns.limit := by
  rw [bare_eq]

theorem overflow_bare (returns : Returns) : returns.bare.overflow = returns.overflow := by
  rw [bare_eq]

end Returns

namespace Course

variable (course : Course)

/-- The course when so many calls have been left. -/
def leave (count : Nat) : Course := course.returned (course.returns.items.drop count)

/-- Who is returned to, the latest call first. -/
def callers : List Caller := course.returns.items.map Frame.caller

theorem leave_leave (first second : Nat) :
    (course.leave first).leave second = course.leave (first + second) := by
  have same := Returns.bare_drop { course.returns with items := course.returns.items.drop first } second
  simp only [List.drop_drop] at same
  exact congrArg (fun returns => ({ course with returns } : Course)) same

theorem callers_leave (count : Nat) : (course.leave count).callers = course.callers.drop count := by
  have items := Returns.bare_eq { course.returns with items := course.returns.items.drop count }
  rw [callers, leave, returned, items, callers, ← List.map_drop]
  cases course.returns.items.drop count <;> rfl

/-- How the way down to the latest search for a root ends. -/
inductive Unwinds : Outcome Bool → Course → Prop
  | reaches {count : Nat} (stops : Bool) (others : ∀ index < count, course.callers[index]? ≠ some .solver)
      (solver : course.callers[count]? = some .solver) : Unwinds (.ok stops) (course.leave (count + 1))
  /-- A call cannot be left. -/
  | remains {count : Nat} (error : Error) (others : ∀ index < count, course.callers[index]? ≠ some .solver) :
      Unwinds (.error error) (course.leave count)

/-- The course when all calls are forgotten. -/
def forgotten : Course := course.leave course.returns.items.length

/-- The course from which a program is jumped to: while none runs, the calls are forgotten first. -/
def ready : Course := if course.isRunning then course else course.forgotten

theorem place_ready : (course.ready.program, course.ready.address) = (course.program, course.address) := by
  rw [ready]
  split <;> rfl

/-- How a command moves the course of a machine. -/
inductive Moves (opcode : Opcode) : Outcome Unit → Course → Prop
  | stays (outcome : Outcome Unit) : Moves opcode outcome course
  | goes {program address : Nat} (jumps : opcode = .goto)
      (target : course.library.IsTarget course.program program) :
      Moves opcode (.ok ()) (course.ready.goTo program (some address))
  /-- A call from the keyboard, while a program is suspended, stops when it returns. -/
  | calls {program address : Nat} {frame : Frame} {called : Course} (jumps : opcode = .execute)
      (target : course.library.IsTarget course.program program)
      (caller : frame.caller = .program course.program) (goesOn : frame.address = course.address)
      (stops : frame.stops = !course.isRunning) (isCalled : course.IsCalled frame called) :
      Moves opcode (.ok ()) { called.goTo program (some address) with isRunning := true }
  /-- A program is started from the keyboard. -/
  | starts {program address : Nat} (jumps : opcode = .execute)
      (target : course.library.IsTarget course.program program) (idle : course.isRunning = false)
      (uncalled : course.returns.items = []) :
      Moves opcode (.ok ()) { course.goTo program (some address) with isRunning := true }
  | runs (runs : opcode = .run) : Moves opcode (.ok ()) { course with isRunning := true }
  | forgets (idle : course.isRunning = false) :
      Moves opcode (.ok ()) (course.forgotten.goTo course.program none)
  /-- A program goes on that called this one. -/
  | resumes {frame : Frame} {index : Nat} (running : course.isRunning = true)
      (top : course.returns.items.head? = some frame) (caller : frame.caller = .program index) :
      Moves opcode (if frame.stops then .error (.plain .stop) else .ok ())
        ((course.leave 1).goTo index
          (if opcode = .returnNo then course.library.skipped index frame.address else frame.address))
  /-- A program ends that is in no call. -/
  | ends {address : Option Nat} (running : course.isRunning = true) (uncalled : course.returns.items = [])
      (top : address = course.address ∨ address = none) :
      Moves opcode (.error (.plain .stop)) (course.goTo course.program address)
  /-- A search goes on that called this program. -/
  | returns {search : Caller} {outcome : Outcome Unit} {after : Course} (running : course.isRunning = true)
      (caller : course.callers.head? = some search) (isSearch : search = .solver ∨ search = .integrator)
      (goesOn : (course.leave 1).Searches search outcome after) : Moves opcode outcome after
  | solves {outcome : Outcome Unit} {after : Course} (begins : opcode = .solve)
      (goesOn : { course.ready with solverHome := (course.program, course.address) : Course }.Searches
        .solver outcome after) : Moves opcode outcome after
  | integrates {outcome : Outcome Unit} {after : Course} (begins : opcode = .integrate)
      (goesOn : { course.ready with integratorHome := (course.program, course.address) : Course }.Searches
        .integrator outcome after) : Moves opcode outcome after
  /-- The latest search for a root goes on, and the calls that it led to are left. -/
  | unwinds {count : Nat} {outcome : Outcome Unit} {after : Course} (raises : opcode = .returnError)
      (others : ∀ index < count, course.callers[index]? ≠ some .solver)
      (solver : course.callers[count]? = some .solver)
      (goesOn : (course.leave (count + 1)).Searches .solver outcome after) : Moves opcode outcome after
  /-- A call on the way to the latest search cannot be left. -/
  | remains {count : Nat} {error : Error} (raises : opcode = .returnError)
      (others : ∀ index < count, course.callers[index]? ≠ some .solver) (solves : .solver ∈ course.callers) :
      Moves opcode (.error error) (course.leave count)
  /-- An error is raised where the program was called. -/
  | raises {frame : Frame} {index : Nat} {error : Error} (raises : opcode = .returnError)
      (top : course.returns.items.head? = some frame) (caller : frame.caller = .program index) :
      Moves opcode (.error error) { (course.leave 1).goTo index frame.address with
        executed := frame.address.bind fun address =>
          (course.library.get? index).bind fun program => program.previous address }
  /-- An error is raised in the program that a search called. -/
  | raisesHere {search : Caller} {error : Error} (raises : opcode = .returnError)
      (caller : course.callers.head? = some search) (isSearch : search = .solver ∨ search = .integrator) :
      Moves opcode (.error error) (course.leave 1)
  | edits {outcome : Outcome Unit} {after : Course} (edits : opcode.editsPrograms)
      (fails : ∀ error, outcome = .error error → after.program = course.program ∧
        after.executed = course.executed ∧ after.isRunning = course.isRunning ∧ after.errors = course.errors) :
      Moves opcode outcome after

variable {course} in
/-- The way down goes on from a call that is left. -/
theorem Unwinds.outer {outcome : Outcome Bool} {after : Course} (first : course.callers.head? ≠ some .solver)
    (unwinds : (course.leave 1).Unwinds outcome after) (stops : Bool) :
    course.Unwinds (outcome.map (· || stops)) after := by
  have others {count : Nat} (inner : ∀ index < count, (course.leave 1).callers[index]? ≠ some .solver) :
      ∀ index < count + 1, course.callers[index]? ≠ some .solver := by
    intro index below
    cases index with
    | zero => rwa [← List.head?_eq_getElem?]
    | succ index =>
        have found := inner index (by omega)
        rwa [callers_leave, List.getElem?_drop, Nat.add_comm] at found
  cases unwinds with
  | @reaches count _ inner solver =>
      rw [leave_leave, Nat.add_comm]
      rw [callers_leave, List.getElem?_drop, Nat.add_comm] at solver
      exact .reaches _ (others inner) solver
  | @remains count error inner =>
      rw [leave_leave, Nat.add_comm]
      exact .remains error (others inner)

end Course

namespace Machine

variable {machine : Machine} {start : Course} {opcode : Opcode}

theorem skipLine_eq (machine : Machine) : machine.skipLine =
    { machine with address := machine.library.skipped machine.program machine.address } := by
  rw [skipLine]
  cases place : machine.address with
  | none => simp [Library.skipped, ← place]
  | some address =>
      cases found : machine.library.get? machine.program with
      | none => simp [Library.skipped, found, ← place]
      | some program =>
          simp only [Library.skipped, found]
          split
          · rfl
          · simp [← place]

theorem exists_leaveEnd_eq (machine : Machine) : ∃ address, (address = machine.address ∨ address = none) ∧
    machine.leaveEnd = { machine with address } := by
  rw [leaveEnd]
  split
  · split
    · exact ⟨none, .inr rfl, rfl⟩
    · exact ⟨machine.address, .inl rfl, rfl⟩
  · exact ⟨machine.address, .inl rfl, rfl⟩

/-- A call that was left: the course is that of the machine without the frame. -/
theorem course_afterReturn (machine : Machine) (frame : Frame) (rest : List Frame)
    (editor : Option Editor) :
    (machine.afterReturn frame rest editor).course =
      { machine.course with returns := Returns.bare { machine.returns with items := rest } } := by
  rw [afterReturn]
  exact course_checkEditor
    (({ machine with editor, returns := { machine.returns with items := rest } } : Machine).purgeLevel
      machine.level)

theorem head?_course (machine : Machine) :
    machine.course.returns.items.head? = machine.returns.items.head?.map Frame.bare := by
  rw [course, Returns.bare_eq]
  cases machine.returns.items <;> rfl

theorem leave_course (machine : Machine) (count : Nat) :
    machine.course.leave count =
      { machine.course with
        returns := Returns.bare { machine.returns with items := machine.returns.items.drop count } } :=
  congrArg (fun returns => ({ machine.course with returns } : Course))
    (Returns.bare_drop machine.returns count)

/-! ## Forgetting calls -/

theorem leave_zero (machine : Machine) : machine.course.leave 0 = machine.course :=
  leave_course machine 0

theorem course_dropCalls (fuel : Nat) (machine : Machine) :
    (machine.dropCalls fuel).course = machine.course.leave fuel := by
  induction fuel generalizing machine with
  | zero => exact (leave_zero machine).symm
  | succ fuel ih =>
      cases items : machine.returns.items with
      | nil =>
          have none : machine.returns.items.drop (fuel + 1) = machine.returns.items := by simp [items]
          rw [leave_course, none, dropCalls]
          simp only [items]
          rw [← items]
          rfl
      | cons frame rest =>
          have left : (if machine.callSavesStack then abandonFunction.attempt machine
              else machine).course = machine.course := by
            split
            · exact course_on (fun _ => evolves_abandonFunction) machine
            · rfl
          have dropped := leave_course machine 1
          rw [items] at dropped
          rw [dropCalls]
          simp only [items]
          rw [ih, Nat.add_comm, ← Course.leave_leave, dropped, ← left]
          have limit := congrArg (fun course => course.returns.limit) left
          have overflow := congrArg (fun course => course.returns.overflow) left
          simp only [course, Returns.limit_bare, Returns.overflow_bare] at limit overflow
          simp [course, purgeLevel, limit, overflow]

theorem length_course (machine : Machine) :
    machine.course.returns.items.length = machine.returns.items.length := by
  rw [course, Returns.bare_eq]
  cases machine.returns.items <;> rfl

/-- All calls are left when they are forgotten. -/
theorem course_clearReturns (machine : Machine) : machine.clearReturns.course = machine.course.forgotten := by
  rw [clearReturns, course_checkEditor, Course.forgotten, length_course]
  exact course_dropCalls machine.returns.depth machine

theorem course_ready (machine : Machine) :
    (if machine.isRunning then machine else machine.clearReturns).course = machine.course.ready := by
  rw [Course.ready, show machine.course.isRunning = machine.isRunning from rfl]
  split
  · rfl
  · exact course_clearReturns machine

/-! ## Returns -/

section

variable {β : Type} (onCourse : machine.IsOn start) {relation : Outcome β → Course → Prop}

include onCourse

/-- What follows the end of the latest call, if there is one. -/
theorem follows_popReturn {next : Option Frame → Action β}
    (failed : ∀ error, relation (.error error) start)
    (uncalled : start.returns.items = [] → ∀ left : Machine, left.IsOn start →
      (next none).Follows relation left)
    (called : ∀ frame, start.returns.items.head? = some frame.bare → ∀ left : Machine,
      left.IsOn (start.leave 1) → (next (some frame)).Follows relation left) :
    (popReturn >>= next).Follows relation machine := by
  obtain rfl := onCourse
  cases items : machine.returns.items with
  | nil =>
      have none := on_popReturn_nil items
      rw [Follows, on_bind_ok none]
      refine uncalled ?_ machine rfl
      rw [course, Returns.bare_eq, items]
      rfl
  | cons frame rest =>
      have pops := on_popReturn_cons items
      cases returned : machine.returnedEditor frame with
      | error error =>
          rw [returned] at pops
          exact follows_of_on (on_bind_error pops next) (failed error)
      | ok editor =>
          rw [returned] at pops
          rw [Follows, on_bind_ok pops]
          refine called frame ?_ _ ?_
          · rw [head?_course, items]
            rfl
          · rw [IsOn, course_afterReturn, leave_course, items]
            rfl

/-- Whatever a call keeps, it is put back before the call is left. -/
theorem follows_leaveCall {finish : Action Unit} (stays : ∀ origin, finish.Evolves false origin) (saves : Bool)
    {next : Option Frame → Action β} (failed : ∀ error, relation (.error error) start)
    (uncalled : start.returns.items = [] → ∀ left : Machine, left.IsOn start →
      (next none).Follows relation left)
    (called : ∀ frame, start.returns.items.head? = some frame.bare → ∀ left : Machine,
      left.IsOn (start.leave 1) → (next (some frame)).Follows relation left) :
    Action.Follows (do
      if saves then finish
      next (← popReturn)) relation machine := by
  cases saves with
  | false => exact follows_popReturn onCourse failed uncalled called
  | true =>
      obtain rfl := onCourse
      exact follows_bind_stays stays failed fun _ left _ same =>
        follows_popReturn same failed uncalled called

theorem follows_resume {before : Course} {frame : Frame} {kind : ReturnKind}
    (isLeft : start = before.leave 1) (running : before.isRunning = true)
    (top : before.returns.items.head? = some frame.bare)
    (skips : kind = .no ↔ opcode = .returnNo) :
    (resume frame kind).Follows (before.Moves opcode) machine := by
  have callers : before.callers.head? = some frame.caller := by
    rw [Course.callers, List.head?_map, top]
    rfl
  subst isLeft
  rw [resume]
  cases caller : frame.caller with
  | solver =>
      exact .returns running (caller ▸ callers) (.inl rfl) (follows_returnToSolver onCourse false false)
  | integrator =>
      exact .returns running (caller ▸ callers) (.inr rfl) (follows_returnToIntegrator onCourse)
  | program index =>
      have moves : before.Moves opcode _ _ := .resumes running top caller
      have goes : (before.leave 1).goTo index
          (if opcode = .returnNo then before.library.skipped index frame.bare.address
            else frame.bare.address) =
          (if kind = .no then ({ machine with program := index, address := frame.address } : Machine).skipLine
            else { machine with program := index, address := frame.address }).course := by
        have library : machine.library = before.library := congrArg Course.library onCourse
        by_cases no : kind = .no
        · rw [if_pos no, if_pos (skips.mp no), skipLine_eq, ← library, ← onCourse]
          rfl
        · rw [if_neg no, if_neg (mt skips.mpr no), ← onCourse]
          rfl
      rw [goes] at moves
      refine follows_modify ?_
      by_cases stops : frame.stops = true
      · rw [show frame.bare.stops = true from stops, if_pos rfl] at moves
        simp only [stops, if_true]
        exact moves
      · rw [show frame.bare.stops = frame.stops from rfl, if_neg stops] at moves
        simp only [stops]
        exact moves

theorem follows_endProgram (running : start.isRunning = true) (uncalled : start.returns.items = []) :
    endProgram.Follows (start.Moves opcode) machine := by
  refine follows_modify ?_
  obtain ⟨address, isTop, same⟩ := exists_leaveEnd_eq (machine.purgeLevel 0).checkEditor
  obtain rfl : (machine.purgeLevel 0).checkEditor.course = start :=
    (course_checkEditor _).trans onCourse
  rw [same]
  exact .ends running uncalled isTop

theorem follows_returnFromCall {kind : ReturnKind} (skips : kind = .no ↔ opcode = .returnNo) :
    (returnFromCall kind).Follows (start.Moves opcode) machine := by
  obtain rfl := onCourse
  refine follows_get ?_
  dsimp only
  split
  · next idle =>
      replace idle : machine.isRunning = false := by simpa using idle
      have forgets : machine.course.Moves opcode (.ok ()) _ := .forgets idle
      rw [← course_clearReturns] at forgets
      have program : machine.clearReturns.program = machine.program :=
        congrArg Course.program (course_clearReturns machine)
      refine follows_of_on rfl ?_
      convert forgets using 1
      simp [course, Course.goTo, program]
  · next busy =>
      have running : machine.isRunning = true := by simpa using busy
      exact follows_leaveCall rfl (fun _ => evolves_finishFunction) _ (fun error => .stays _)
        (fun uncalled left found => follows_endProgram found running uncalled)
        fun frame top left found => follows_resume found rfl running top skips

/-! ## Errors that are raised -/

/-- No call can be left. -/
theorem unwinds_of_isOn (error : Error) : start.Unwinds (.error error) start := by
  obtain rfl := onCourse
  have remains : machine.course.Unwinds (.error error) (machine.course.leave 0) :=
    .remains error fun _ below => absurd below (Nat.not_lt_zero _)
  rwa [leave_zero] at remains

theorem follows_unwindToSolver (fuel : Nat) : (unwindToSolver fuel).Follows start.Unwinds machine := by
  induction fuel generalizing machine start with
  | zero =>
      refine follows_of_on rfl ?_
      rw [onCourse]
      exact unwinds_of_isOn onCourse _
  | succ fuel ih =>
      have here := unwinds_of_isOn onCourse
      refine follows_get ?_
      refine follows_leaveCall onCourse (fun _ => evolves_discardFunction) _ here
        (fun _ left found => found ▸ here _) fun frame top left found => ?_
      have callers : start.callers.head? = some frame.caller := by
        rw [Course.callers, List.head?_map, top]
        rfl
      dsimp only
      split
      · next solver =>
          rw [solver, List.head?_eq_getElem?] at callers
          refine follows_of_on rfl ?_
          rw [found]
          exact .reaches _ (fun _ below => absurd below (Nat.not_lt_zero _)) callers
      · next other =>
          have first : start.callers.head? ≠ some .solver := by
            rw [callers]
            exact fun same => other (Option.some.inj same)
          have unwinds := (ih found).outer first frame.stops
          refine follows_bind (fun error after ends => ?_) fun stops after ends => ?_
          all_goals
            rw [ends] at unwinds
            exact unwinds

omit onCourse in
theorem solver_mem_callers (solving : machine.isSolving = true) : .solver ∈ machine.course.callers := by
  have callers : machine.course.callers = machine.returns.items.map Frame.caller := by
    rw [Course.callers, course, Returns.bare_eq]
    cases machine.returns.items <;> rfl
  rw [isSolving, List.any_eq_true] at solving
  obtain ⟨frame, member, isSolver⟩ := solving
  rw [callers]
  exact List.mem_map.mpr ⟨frame, member, beq_iff_eq.mp isSolver⟩

omit onCourse in
/-- A sample fails: the latest search for a root goes on, or a call on the way to it cannot be left. -/
theorem follows_failSample {relation : Outcome Unit → Course → Prop}
    (remains : ∀ count error, (∀ index < count, machine.course.callers[index]? ≠ some .solver) →
      relation (.error error) (machine.course.leave count))
    (goesOn : ∀ count outcome after, (∀ index < count, machine.course.callers[index]? ≠ some .solver) →
      machine.course.callers[count]? = some .solver →
      (machine.course.leave (count + 1)).Searches .solver outcome after → relation outcome after) :
    failSample.Follows relation machine := by
  have unwinds : unwind.Follows machine.course.Unwinds machine :=
    follows_get (follows_unwindToSolver rfl _)
  refine follows_bind (fun error left ends => ?_) fun stops left ends => ?_
  · rw [Follows, ends] at unwinds
    generalize left.course = after at unwinds
    cases unwinds with
    | remains _ others => exact remains _ _ others
  · rw [Follows, ends] at unwinds
    have returned : (returnToSolver true stops).Follows (left.course.Searches .solver) left :=
      follows_returnToSolver rfl true stops
    rw [Follows] at returned
    refine follows_of_on rfl ?_
    generalize left.course = after at unwinds returned
    cases unwinds with
    | reaches _ others solver => exact goesOn _ _ _ others solver returned

theorem follows_returnWithError (raises : opcode = .returnError) (error : Error) :
    (returnWithError error).Follows (start.Moves opcode) machine := by
  refine follows_get ?_
  dsimp only
  split
  · next sampled =>
      rw [Bool.and_eq_true] at sampled
      obtain rfl := onCourse
      exact follows_failSample (fun _ _ others => .remains raises others (solver_mem_callers sampled.2))
        fun _ _ _ others solver goesOn => .unwinds raises others solver goesOn
  · refine follows_leaveCall onCourse (fun _ => evolves_discardFunction) _ (fun error => .stays _)
      (fun _ left found => ?_) fun frame top left found => ?_
    · exact follows_of_on rfl (found ▸ .stays _)
    · have library : left.library = start.library := congrArg Course.library found
      have callers : start.callers.head? = some frame.caller := by
        rw [Course.callers, List.head?_map, top]
        rfl
      obtain ⟨caller, address, parks, saves, lift, stops⟩ := frame
      cases caller with
      | program index =>
          have moves : start.Moves opcode (.error error) _ := .raises raises top rfl
          rw [← library, ← found] at moves
          exact moves
      | solver => exact follows_of_on rfl (found ▸ .raisesHere raises callers (.inl rfl))
      | integrator => exact follows_of_on rfl (found ▸ .raisesHere raises callers (.inr rfl))

theorem follows_returnWithNumber (raises : opcode = .returnError) (number : Nat) :
    (returnWithNumber number).Follows (start.Moves opcode) machine := by
  have stays (error : Error) : start.Moves opcode (.error error) machine.course := by
    rw [onCourse]
    exact .stays _
  rw [returnWithNumber]
  split
  · exact follows_returnFromCall onCourse
      ⟨fun no => ReturnKind.noConfusion no, fun no => by rw [raises] at no; cases no⟩
  · split
    · split
      · exact stays _
      · exact follows_returnWithError onCourse raises _
    · exact stays _

/-! ## Jumps, calls and searches -/

omit onCourse in
theorem isTarget_of_jumpTarget {argument : Argument} {target : JumpTarget} {program address : Nat}
    (found : machine.jumpTarget argument target = .ok (program, address)) :
    machine.library.IsTarget machine.program program := by
  have labelled {argument : Argument} (found : machine.labelInProgram argument = .ok (program, address)) :
      program = machine.program := by
    unfold labelInProgram at found
    split at found
    · cases found
    · next current isCurrent =>
        cases search : current.findLabel machine.address argument with
        | error error =>
            rw [search] at found
            cases found
        | ok label =>
            rw [search] at found
            cases label <;> cases found
            rfl
  unfold jumpTarget at found
  split at found
  · cases found
    exact .inl rfl
  · cases found
  · cases resolved : machine.resolve argument with
    | error error =>
        rw [resolved] at found
        cases found
    | ok resolution =>
        rw [resolved] at found
        simp only [bind, Except.bind] at found
        split at found
        · next name =>
            rw [globalLabel] at found
            split at found
            · next place isPlace =>
                cases found
                exact .inr ⟨name, address, isPlace⟩
            · cases found
        · exact .inl (labelled found)
        · exact .inl (labelled found)
        · cases found

theorem follows_goto (jumps : opcode = .goto) (argument : Argument) (target : JumpTarget) :
    (goto argument target).Follows (start.Moves opcode) machine := by
  obtain rfl := onCourse
  refine follows_get (follows_lift (fun error _ => .stays _) fun place found => ?_)
  obtain ⟨program, address⟩ := place
  have moves : machine.course.Moves opcode (.ok ()) (machine.course.ready.goTo program (some address)) :=
    .goes jumps (isTarget_of_jumpTarget found)
  rw [← course_ready] at moves
  exact moves

theorem follows_call (jumps : opcode = .execute) (argument : Argument) (target : JumpTarget) :
    (call argument target).Follows (start.Moves opcode) machine := by
  obtain rfl := onCourse
  refine follows_get (follows_lift (fun error _ => .stays _) fun place found => ?_)
  obtain ⟨program, address⟩ := place
  have isTarget : machine.course.library.IsTarget machine.course.program program :=
    isTarget_of_jumpTarget found
  have calls (stops : Bool) (same : stops = !machine.isRunning) (room : machine.returns.isFull = false) :
      machine.course.Moves opcode (.ok ()) _ :=
    @Course.Moves.calls _ _ _ address { machine.callFrame (.program machine.program) machine.address with stops } _
      jumps isTarget rfl rfl same ⟨machine.returns, rfl, (isFull_course machine).trans room, rfl⟩
  dsimp only
  cases running : machine.isRunning with
  | true =>
      exact follows_pushReturn _ _ (fun _ => .stays _) fun room => calls false (by rw [running]; rfl) room
  | false =>
      cases items : machine.returns.items with
      | nil =>
          have uncalled : machine.course.returns.items = [] := by
            rw [course, Returns.bare_eq, items]
            rfl
          have starts : machine.course.Moves opcode (.ok ())
              { machine.course.goTo program (some address) with isRunning := true } :=
            .starts jumps isTarget running uncalled
          simp only [BoundedStack.isEmpty, items]
          exact starts
      | cons frame rest =>
          simp only [BoundedStack.isEmpty, items]
          exact follows_pushReturn _ _ (fun _ => .stays _) fun room => calls true (by rw [running]; rfl) room

end

theorem follows_beginSolving (begins : opcode = .solve) (name : List UInt8) :
    (beginSolving name).Follows (machine.course.Moves opcode) machine := by
  refine follows_get ?_
  dsimp only
  split
  · exact .stays _
  · refine follows_lift (fun error _ => .stays _) fun first _ => ?_
    refine follows_lift (fun error _ => .stays _) fun x _ => ?_
    refine follows_lift (fun error _ => .stays _) fun second _ => ?_
    refine follows_modify (follows_modify (.solves begins (follows_sampleForSolver ?_ _ _)))
    have same := course_ready machine
    dsimp only
    generalize (if machine.isRunning then machine else machine.clearReturns) = ready at same ⊢
    rw [IsOn, ← machine.course.place_ready, ← same]
    exact congrArg (fun solverHome => ({ ready.course with solverHome } : Course)) (Solver.home_start _ _ _)

theorem follows_beginIntegrating (begins : opcode = .integrate) (name : List UInt8) :
    (beginIntegrating name).Follows (machine.course.Moves opcode) machine := by
  refine follows_get ?_
  dsimp only
  split
  · exact .stays _
  · refine follows_lift (fun error _ => .stays _) fun lower _ => ?_
    refine follows_lift (fun error _ => .stays _) fun upper _ => ?_
    refine follows_lift (fun error _ => .stays _) fun accuracy _ => ?_
    refine follows_modify (follows_modify (.integrates begins (follows_returnToIntegrator ?_)))
    have same := course_ready machine
    dsimp only
    generalize (if machine.isRunning then machine else machine.clearReturns) = ready at same ⊢
    rw [IsOn, ← machine.course.place_ready, ← same]
    rfl

/-! ## Edits -/

/-- What edits leave as it is, also when they fail. -/
def SamePlace (machine left : Machine) : Prop :=
  left.program = machine.program ∧ left.executed = machine.executed ∧ left.isRunning = machine.isRunning ∧
    left.errors = machine.errors

theorem SamePlace.trans {between left : Machine} (first : machine.SamePlace between)
    (second : between.SamePlace left) : machine.SamePlace left :=
  ⟨second.1.trans first.1, second.2.1.trans first.2.1, second.2.2.1.trans first.2.2.1,
    second.2.2.2.trans first.2.2.2⟩

theorem samePlace_clearReturns (machine : Machine) : machine.SamePlace machine.clearReturns := by
  have same := course_clearReturns machine
  exact ⟨congrArg Course.program same, congrArg Course.executed same, congrArg Course.isRunning same,
    congrArg Course.errors same⟩

section

variable (edits : opcode.editsPrograms)

include edits

theorem moves_edited (after : Course) : start.Moves opcode (.ok ()) after :=
  .edits edits fun _ failed => by cases failed

theorem follows_clearProgram (name : List UInt8) :
    (clearProgram name).Follows (machine.course.Moves opcode) machine := by
  refine follows_get (follows_lift (fun error _ => .stays _) fun place _ => ?_)
  refine follows_lift (fun error _ => .stays _) fun library _ => ?_
  exact moves_edited edits _

theorem follows_gotoNewProgram : gotoNewProgram.Follows (machine.course.Moves opcode) machine := by
  refine follows_get (follows_lift (fun error _ => .stays _) fun place _ => ?_)
  exact moves_edited edits _

theorem follows_gotoLine (argument : Argument) :
    (gotoLine argument).Follows (machine.course.Moves opcode) machine := by
  refine follows_get ?_
  dsimp only
  split
  · refine follows_lift (fun error _ => .stays _) fun program _ => ?_
    exact moves_edited edits _
  · refine follows_lift (fun error _ => .stays _) fun place _ => ?_
    exact moves_edited edits _
  · exact .stays _

omit edits in
theorem samePlace_deleteLine (machine : Machine) : machine.SamePlace (deleteLine.on machine).2 := by
  rw [deleteLine, on_bind_ok (on_get _)]
  cases place : machine.address with
  | none => exact ⟨rfl, rfl, rfl, rfl⟩
  | some address =>
      dsimp only
      rw [on_bind, on_lift]
      cases machine.library.delete machine.program address with
      | error error => exact ⟨rfl, rfl, rfl, rfl⟩
      | ok edited =>
          obtain ⟨deleted, library⟩ := edited
          cases deleted <;> exact samePlace_clearReturns _

omit edits in
theorem samePlace_nextLine (machine : Machine) : machine.SamePlace machine.nextLine := by
  rw [nextLine]
  split <;> exact ⟨rfl, rfl, rfl, rfl⟩

omit edits in
theorem samePlace_deleteLines (machine : Machine) (count : Nat) :
    machine.SamePlace ((deleteLines count).on machine).2 := by
  induction count generalizing machine with
  | zero => exact ⟨rfl, rfl, rfl, rfl⟩
  | succ count ih =>
      rw [deleteLines, on_bind_ok (on_get _)]
      split
      · have first := samePlace_deleteLine machine
        rw [on_bind]
        rcases deletes : deleteLine.on machine with ⟨error | deleted, left⟩
        · rwa [deletes] at first
        · rw [deletes] at first
          dsimp only
          split
          · rw [on_bind_ok (on_modify _ _)]
            exact (first.trans (samePlace_nextLine left)).trans (ih _)
          · exact first
      · exact ⟨rfl, rfl, rfl, rfl⟩

theorem follows_deleteLines (count : Nat) :
    (deleteLines count).Follows (machine.course.Moves opcode) machine :=
  .edits edits fun _ _ => samePlace_deleteLines machine count

end

/-! ## All commands -/

theorem follows_of_stays {action : Action Unit} (stays : ∀ origin, action.Evolves false origin) :
    action.Follows (machine.course.Moves opcode) machine := by
  rw [Follows, course_on stays]
  exact .stays _

section Commands

variable {argument : Argument} {target : JumpTarget} {action : Action Unit}

theorem follows_withName {command : List UInt8 → Action Unit}
    (follows : ∀ name, (command name).Follows (machine.course.Moves opcode) machine) :
    (withName argument command).Follows (machine.course.Moves opcode) machine :=
  follows_get (follows_lift (fun _ _ => .stays _) fun name _ => follows name)

theorem follows_withNumber {command : Nat → Action Unit}
    (follows : ∀ number, (command number).Follows (machine.course.Moves opcode) machine) :
    (withNumber argument command).Follows (machine.course.Moves opcode) machine :=
  follows_get (follows_lift (fun _ _ => .stays _) fun number _ => follows number)

theorem follows_withLabel {command : List UInt8 → Action Unit}
    (follows : ∀ name, (command name).Follows (machine.course.Moves opcode) machine) :
    (withLabel argument command).Follows (machine.course.Moves opcode) machine :=
  follows_get (follows_lift (fun _ _ => .stays _) fun name _ => follows name)

theorem follows_movingCommand
    (found : controlCommand? opcode argument target = some action) :
    opcode.movesCourse = true → action.Follows (machine.course.Moves opcode) machine := by
  have plain {other : Opcode} (same : other ≠ .returnNo) {kind : ReturnKind} (no : kind ≠ .no) :
      kind = .no ↔ other = .returnNo := iff_of_false no same
  cases opcode <;> cases found
  case goto => exact fun _ => follows_goto rfl rfl _ _
  case execute => exact fun _ => follows_call rfl rfl _ _
  case returnFromCall | endOfProgram | returnYes =>
    exact fun _ => follows_returnFromCall rfl (plain (by decide) (by decide))
  case returnNo => exact fun _ => follows_returnFromCall rfl (iff_of_true rfl rfl)
  case returnError =>
    exact fun _ => follows_withNumber fun number => follows_returnWithNumber rfl rfl number
  case run => exact fun _ => .runs rfl
  case solve => exact fun _ => follows_withName (follows_beginSolving rfl)
  case integrate => exact fun _ => follows_withName (follows_beginIntegrating rfl)
  case clearProgram => exact fun _ => follows_withLabel (follows_clearProgram rfl)
  case gotoLine => exact fun _ => follows_gotoLine rfl _
  case gotoNewProgram => exact fun _ => follows_gotoNewProgram rfl
  case deleteLines => exact fun _ => follows_withNumber (follows_deleteLines rfl)
  case singleStep | backStep => exact fun _ => moves_edited rfl _
  all_goals exact fun moves => absurd moves Bool.false_ne_true

theorem follows_controlCommand
    (found : controlCommand? opcode argument target = some action) :
    action.Follows (machine.course.Moves opcode) machine := by
  cases moves : opcode.movesCourse with
  | false => exact follows_of_stays fun _ => moves ▸ evolves_controlCommand found
  | true => exact follows_movingCommand found moves

theorem follows_effect (memory : Nat) (flags : Flags) (instruction : Instruction) :
    (effect memory flags instruction target).Follows (machine.course.Moves instruction.opcode) machine := by
  rw [effect]
  cases found : (numericCommand? memory flags instruction.opcode instruction.argument).or _ with
  | none => exact .stays _
  | some action =>
      simp only [Option.or_eq_some_iff] at found
      obtain numeric | ⟨-, condition | ⟨-, stack | ⟨-, mode | ⟨-, memory | ⟨-, editing |
        ⟨-, control | ⟨-, output | ⟨-, general⟩⟩⟩⟩⟩⟩⟩⟩ := found
      · exact follows_of_stays fun _ => evolves_numericCommand numeric
      · exact follows_of_stays fun _ => evolves_condition condition
      · exact follows_of_stays fun _ => evolves_stackCommand stack
      · exact follows_of_stays fun _ => evolves_modeCommand mode
      · exact follows_of_stays fun _ => evolves_memoryCommand memory
      · exact follows_of_stays fun _ => evolves_editingCommand editing
      · exact follows_controlCommand control
      · exact follows_of_stays fun _ => evolves_outputCommand output
      · cases moves : instruction.opcode.movesCourse with
        | false => exact follows_of_stays fun _ => moves ▸ evolves_generalCommand general
        | true =>
            generalize instruction.opcode = opcode at general moves
            cases opcode <;> cases moves <;> cases general
            exact moves_edited rfl _

/-- Whatever is executed moves the machine. -/
theorem follows_perform (instruction : Instruction) :
    (perform instruction target).Follows (machine.course.Moves instruction.opcode) machine := by
  refine follows_get (follows_bind (fun error left ends => ?_) fun _ left ends => ?_)
  all_goals
    have moves : (effect machine.memory machine.flags instruction target).Follows
        (machine.course.Moves instruction.opcode) machine :=
      follows_effect machine.memory machine.flags instruction
    rw [Follows, ends] at moves
  · exact moves
  · exact follows_of_on rfl (course_afterCommand left _ ▸ moves)

end Commands

end Machine

end Keystroke
