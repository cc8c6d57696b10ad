import Mathlib
import Keystroke.Proofs.Courses.Moves
import Keystroke.Proofs.FailedSamples.Unwinding
import Keystroke.Proofs.Inputs
import Keystroke.Proofs.LibraryEdits
import Keystroke.Proofs.Places.Reachable
import Keystroke.Proofs.StateFile.Checks

/-!
# Programs that exist

Machines are numbered into their libraries: the program that one is in, those that its calls go home to, and
those that labels are found in. Edits shift these numbers or forget them, and whatever else moves a machine takes
it from one of them to another. So all of them stay numbers of programs that exist.
-/

namespace Keystroke

open Keystroke.Action

namespace Library

variable {library next : Library} {index address : Nat}

/-- Labels are found in programs that exist. -/
def HasLabels (library : Library) : Prop := ∀ label ∈ library.labels, label.program < library.count

theorem hasLabels_ofPrograms (programs : List Program) : (ofPrograms programs).HasLabels := by
  intro label member
  have range := (program_of_mem_labelsFrom member).2
  rwa [Nat.zero_add] at range

@[simp]
theorem count_ofPrograms (programs : List Program) : (ofPrograms programs).count = programs.length := rfl

@[simp]
theorem count_set (library : Library) (index : Nat) (program : Program) :
    (library.set index program).count = library.count := by
  simp [set, count]

@[simp]
theorem count_shiftLabels (library : Library) (program address : Nat) (distance : Int) :
    (library.shiftLabels program address distance).count = library.count := rfl

theorem HasLabels.set (labelled : library.HasLabels) (index : Nat) (program : Program) :
    (library.set index program).HasLabels := by
  intro label member
  rw [count_set]
  exact labelled label member

theorem HasLabels.shiftLabels (labelled : library.HasLabels) (program address : Nat) (distance : Int) :
    (library.shiftLabels program address distance).HasLabels := by
  intro label member
  obtain ⟨original, isLabel, rfl⟩ := List.mem_map.mp member
  have inside := labelled original isLabel
  split <;> exact inside

theorem HasLabels.program_lt (labelled : library.HasLabels) {name : List UInt8} {program : Nat}
    (found : library.findGlobal? name = some (program, address)) : program < library.count := by
  obtain ⟨label, isFound, same⟩ := Option.map_eq_some_iff.mp found
  cases same
  exact labelled label (List.mem_reverse.mp (List.mem_of_find?_eq_some isFound))

theorem lt_count_of_get? {program : Program} (found : library.get? index = some program) :
    index < library.count :=
  (List.getElem?_eq_some_iff.mp found).1

/-- No program is lost when a line is inserted. -/
theorem HasLabels.insert (labelled : library.HasLabels) {instruction : Instruction}
    (inserted : library.insert index address instruction = .ok next) :
    next.HasLabels ∧ library.count ≤ next.count := by
  obtain ⟨bytes, program, -, found, -, rfl⟩ := insert_eq_ok inserted
  have inside := lt_count_of_get? found
  split
  · refine ⟨hasLabels_ofPrograms _, ?_⟩
    rw [count] at inside
    rw [split, count_ofPrograms, count, List.length_append, List.length_cons, List.length_cons, List.length_take,
      List.length_drop]
    omega
  split
  · exact ⟨hasLabels_ofPrograms _, (count_set library index _).ge⟩
  · exact ⟨(labelled.shiftLabels _ _ _).set _ _, by simp⟩

/-- When a line is deleted the program is still there. -/
theorem HasLabels.delete (labelled : library.HasLabels) {result : Bool × Library}
    (deleted : library.delete index address = .ok result) :
    result.2.HasLabels ∧ index < result.2.count := by
  obtain ⟨program, decoded, found, -, ways⟩ := delete_eq_ok deleted
  have inside := lt_count_of_get? found
  rcases ways with ⟨-, rfl⟩ | ⟨-, -, behind, foundNext, -, rfl⟩ | ⟨-, -, rfl⟩
  · exact ⟨labelled, inside⟩
  · have nextInside := lt_count_of_get? foundNext
    refine ⟨hasLabels_ofPrograms _, ?_⟩
    rw [count] at inside nextInside
    rw [join, count_ofPrograms, List.length_append, List.length_cons, List.length_take, List.length_drop]
    omega
  · dsimp only
    split
    · exact ⟨hasLabels_ofPrograms _, inside.trans_le (count_set library index _).ge⟩
    · exact ⟨(labelled.shiftLabels _ _ _).set _ _, by simpa using inside⟩

/-- At most one program is lost when one is cleared, and never the only one. -/
theorem clear_eq_ok (cleared : library.clear index = .ok next) :
    next.HasLabels ∧ index < library.count ∧ library.count ≤ next.count + 1 ∧ 0 < next.count := by
  unfold clear at cleared
  cases found : library.existing index with
  | error error => simp [found, bind, Except.bind] at cleared
  | ok program =>
      have inside := lt_count_of_get? (existing_eq_ok.mp found)
      have rest : (library.programs.eraseIdx index).length = library.count - 1 :=
        List.length_eraseIdx_of_lt inside
      simp only [found, bind, Except.bind] at cleared
      split at cleared
      · cases cleared
      · split at cleared
        · obtain rfl := Except.ok.inj cleared
          refine ⟨hasLabels_ofPrograms _, inside, ?_, ?_⟩
          all_goals rw [count_ofPrograms, List.length_append, rest, List.length_singleton]
          all_goals omega
        · next notEmpty =>
            obtain rfl := Except.ok.inj cleared
            have nonempty : 0 < (library.programs.eraseIdx index).length :=
              List.length_pos_of_ne_nil fun empty => notEmpty (by simp [empty])
            refine ⟨hasLabels_ofPrograms _, inside, ?_, nonempty⟩
            rw [count_ofPrograms, rest]
            omega

/-- The program that is opened is there. -/
theorem HasLabels.openNew (labelled : library.HasLabels) {result : Nat × Library}
    (opened : library.openNew = .ok result) : result.2.HasLabels ∧ result.1 < result.2.count := by
  unfold Library.openNew at opened
  cases found : library.existing (library.count - 1) with
  | error error => simp [found, bind, Except.bind] at opened
  | ok last =>
      have inside := lt_count_of_get? (existing_eq_ok.mp found)
      simp only [found, bind, Except.bind] at opened
      split at opened
      · obtain rfl := Except.ok.inj opened
        exact ⟨labelled, inside⟩
      · cases inserted : library.insert (library.count - 1) last.endAddress (.plain .endOfProgram) with
        | error error => simp [inserted] at opened
        | ok extended =>
            simp only [inserted] at opened
            obtain rfl := Except.ok.inj opened
            obtain ⟨labels, more⟩ := labelled.insert inserted
            refine ⟨labels, ?_⟩
            dsimp only
            omega

end Library

/-! ## Courses -/

namespace Course

/-- The programs of a course exist. -/
structure HasPrograms (course : Course) : Prop where
  labels : course.library.HasLabels
  own : course.program < course.library.count
  /-- Where what was called goes home to. -/
  callers : ∀ caller ∈ course.callers, (course.home caller).1 < course.library.count

namespace HasPrograms

variable {course after : Course} (holds : course.HasPrograms)

include holds

theorem goTo {program : Nat} (inside : program < course.library.count) (address : Option Nat) :
    (course.goTo program address).HasPrograms where
  labels := holds.labels
  own := inside
  callers caller member := by
    have home := holds.callers caller member
    cases caller <;> exact home

theorem leave (count : Nat) : (course.leave count).HasPrograms where
  labels := holds.labels
  own := holds.own
  callers caller member := by
    rw [callers_leave] at member
    have home := holds.callers caller (List.mem_of_mem_drop member)
    cases caller <;> exact home

theorem ready : course.ready.HasPrograms := by
  rw [Course.ready]
  split
  · exact holds
  · exact holds.leave _

theorem isCalled {frame : Frame} (called : course.IsCalled frame after)
    (home : (course.home frame.caller).1 < course.library.count) : after.HasPrograms := by
  obtain ⟨below, same, -, rfl⟩ := called
  refine ⟨holds.labels, holds.own, fun caller member => ?_⟩
  have callers : course.callers = below.items.map Frame.caller := by
    rw [Course.callers, ← same, Returns.bare_eq]
    cases below.items <;> rfl
  rw [Course.callers, List.map_cons, ← callers] at member
  have isHome : (course.home caller).1 < course.library.count := by
    rcases List.mem_cons.mp member with rfl | isCaller
    · exact home
    · exact holds.callers caller isCaller
  cases caller <;> exact isHome

/-- However a search goes on. -/
theorem searches {search : Caller} {outcome : Outcome Unit} (goesOn : course.Searches search outcome after)
    (home : (course.home search).1 < course.library.count) : after.HasPrograms := by
  cases goesOn with
  | fails error => exact holds
  | samples found caller stops called =>
      refine (holds.goTo (holds.labels.program_lt found) _).isCalled called ?_
      rw [caller]
      cases search <;> exact home
  | overflows found full => exact holds.goTo (holds.labels.program_lt found) _
  | finishes ends => exact holds.goTo home _

omit holds in
/-- Where a call goes home to does not depend on the calls. -/
theorem home_leave (course : Course) (count : Nat) (caller : Caller) :
    (course.leave count).home caller = course.home caller := by
  cases caller <;> rfl

theorem searches_left {search : Caller} {count index : Nat} {outcome : Outcome Unit}
    (caller : course.callers[index]? = some search)
    (goesOn : (course.leave count).Searches search outcome after) : after.HasPrograms := by
  refine (holds.leave count).searches goesOn ?_
  rw [home_leave]
  exact holds.callers search (List.mem_of_getElem? caller)

theorem isTarget {program : Nat} (target : course.library.IsTarget course.program program) :
    program < course.library.count := by
  rcases target with rfl | ⟨name, address, found⟩
  · exact holds.own
  · exact holds.labels.program_lt found

theorem beginsSolving :
    ({ course with solverHome := (course.program, course.address) } : Course).HasPrograms where
  labels := holds.labels
  own := holds.own
  callers caller member := by
    have home := holds.callers caller member
    cases caller
    case solver => exact holds.own
    all_goals exact home

theorem beginsIntegrating :
    ({ course with integratorHome := (course.program, course.address) } : Course).HasPrograms where
  labels := holds.labels
  own := holds.own
  callers caller member := by
    have home := holds.callers caller member
    cases caller
    case integrator => exact holds.own
    all_goals exact home

/-- Whatever moves a machine, apart from edits. -/
theorem moves {opcode : Opcode} {outcome : Outcome Unit} (moves : course.Moves opcode outcome after)
    (keeps : opcode.editsPrograms = false) : after.HasPrograms := by
  have target {program : Nat} (isTarget : course.library.IsTarget course.program program) :=
    holds.isTarget isTarget
  have called {frame : Frame} {index : Nat} (top : course.returns.items.head? = some frame)
      (caller : frame.caller = .program index) : index < course.library.count :=
    holds.callers (.program index) (List.mem_map.mpr ⟨frame, List.mem_of_head? top, caller⟩)
  cases moves with
  | stays | runs => exact { holds with }
  | goes jumps isTarget =>
      refine holds.ready.goTo ?_ _
      rw [Course.ready]
      split <;> exact target isTarget
  | calls jumps isTarget caller goesOn stops isCalled =>
      have called := holds.isCalled isCalled (caller ▸ holds.own)
      obtain ⟨below, -, -, rfl⟩ := isCalled
      exact { called.goTo (target isTarget) none with }
  | starts jumps isTarget => exact { holds.goTo (target isTarget) none with }
  | forgets idle => exact (holds.leave _).goTo holds.own _
  | resumes running top caller => exact (holds.leave 1).goTo (called top caller) _
  | ends => exact holds.goTo holds.own _
  | returns running caller isSearch goesOn =>
      rw [List.head?_eq_getElem?] at caller
      exact holds.searches_left caller goesOn
  | solves begins goesOn =>
      rw [← course.place_ready] at goesOn
      exact holds.ready.beginsSolving.searches goesOn holds.ready.own
  | integrates begins goesOn =>
      rw [← course.place_ready] at goesOn
      exact holds.ready.beginsIntegrating.searches goesOn holds.ready.own
  | unwinds raises others solver goesOn => exact holds.searches_left solver goesOn
  | remains => exact holds.leave _
  | raises raises top caller =>
      exact { (holds.leave 1).goTo (called top caller) none with }
  | raisesHere => exact holds.leave 1
  | edits edits => exact absurd (keeps.symm.trans edits) Bool.false_ne_true

end HasPrograms

theorem callers_forgotten (course : Course) : course.forgotten.callers = [] := by
  rw [forgotten, callers_leave, callers, List.drop_eq_nil_of_le (by rw [List.length_map])]

end Course

namespace Machine

variable {machine : Machine}

/-! ## Edits -/

/-- The programs that a machine goes to exist. -/
def HasPrograms (machine : Machine) : Prop := machine.course.HasPrograms

theorem program_clearReturns (machine : Machine) : machine.clearReturns.program = machine.program :=
  congrArg Course.program (course_clearReturns machine)

/-- After an edit there are no calls. -/
theorem hasPrograms_edited {library : Library} (labels : library.HasLabels) {program : Nat}
    (own : program < library.count) (address : Option Nat) :
    ({ ({ machine with library } : Machine).clearReturns with program, address } : Machine).HasPrograms := by
  have forgets := course_clearReturns { machine with library }
  have kept : ({ machine with library } : Machine).clearReturns.library = library :=
    congrArg Course.library forgets
  have uncalled : ({ machine with library } : Machine).clearReturns.course.callers = [] := by
    rw [forgets, Course.callers_forgotten]
  generalize ({ machine with library } : Machine).clearReturns = cleared at kept uncalled
  subst kept
  exact ⟨labels, own, fun caller member => absurd (uncalled ▸ member) List.not_mem_nil⟩

/-- An action leaves a machine with its programs. -/
abbrev LeavesPrograms {α : Type} (action : Action α) (machine : Machine) : Prop :=
  action.Follows (fun _ after => after.HasPrograms) machine

theorem HasPrograms.at (holds : machine.HasPrograms) {program : Nat} (inside : program < machine.library.count)
    (address : Option Nat) : ({ machine with program, address } : Machine).HasPrograms :=
  Course.HasPrograms.goTo holds inside address

section

variable (holds : machine.HasPrograms)

include holds

theorem leavesPrograms_insertLine (instruction : Instruction) : LeavesPrograms (insertLine instruction) machine := by
  rw [insertLine]
  split
  · exact holds
  · refine follows_get (follows_lift (fun _ _ => holds) fun program _ => ?_)
    refine follows_lift (fun _ _ => holds) fun library inserted => ?_
    obtain ⟨labels, more⟩ := Course.HasPrograms.labels holds |>.insert inserted
    have own : machine.program < library.count := (Course.HasPrograms.own holds).trans_le more
    rw [← program_clearReturns { machine with library }] at own
    exact hasPrograms_edited labels own _

theorem leavesPrograms_deleteLine : LeavesPrograms deleteLine machine := by
  refine follows_get ?_
  cases place : machine.address with
  | none => exact holds
  | some address =>
      refine follows_lift (fun _ _ => holds) fun edited deletes => ?_
      have found := Course.HasPrograms.labels holds |>.delete deletes
      clear deletes
      obtain ⟨deleted, library⟩ := edited
      obtain ⟨labels, own⟩ := found
      rw [show machine.program = _ from
        (program_clearReturns { machine with address := some address, library }).symm] at own
      have edited (after : Option Nat) :=
        @hasPrograms_edited { machine with address := some address } _ labels _ own after
      cases deleted <;> exact follows_of_on rfl (edited _)

omit holds in
theorem exists_nextLine_eq (machine : Machine) : ∃ address, machine.nextLine = { machine with address } := by
  rw [nextLine]
  split <;> exact ⟨_, rfl⟩

omit holds in
theorem exists_previousLine_eq (machine : Machine) : ∃ address, machine.previousLine = { machine with address } := by
  rw [previousLine]
  split <;> exact ⟨_, rfl⟩

theorem leavesPrograms_deleteLines (count : Nat) : LeavesPrograms (deleteLines count) machine := by
  induction count generalizing machine with
  | zero => exact holds
  | succ count ih =>
      refine follows_get ?_
      split
      · have deleted := leavesPrograms_deleteLine holds
        refine follows_bind (fun error left ends => ?_) fun deletes left ends => ?_
        all_goals rw [LeavesPrograms, Follows, ends] at deleted
        · exact deleted
        · split
          · obtain ⟨address, moved⟩ := exists_nextLine_eq left
            refine follows_modify (ih ?_)
            rw [moved]
            exact HasPrograms.at deleted (Course.HasPrograms.own deleted) address
          · exact deleted
      · exact holds

theorem leavesPrograms_gotoNewProgram : LeavesPrograms gotoNewProgram machine := by
  refine follows_get (follows_lift (fun _ _ => holds) fun result opened => ?_)
  have found := Course.HasPrograms.labels holds |>.openNew opened
  exact hasPrograms_edited found.1 found.2 none

theorem leavesPrograms_gotoLine (argument : Argument) : LeavesPrograms (gotoLine argument) machine := by
  have forgets {left : Machine} (isLeft : left.HasPrograms) : left.clearReturns.HasPrograms :=
    @hasPrograms_edited left _ (Course.HasPrograms.labels isLeft) _
      (program_clearReturns left ▸ Course.HasPrograms.own isLeft) left.clearReturns.address
  refine follows_get ?_
  dsimp only
  split
  · refine follows_lift (fun _ _ => holds) fun program _ => forgets ?_
    exact HasPrograms.at holds (Course.HasPrograms.own holds) _
  · refine follows_lift (fun _ _ => holds) fun place found => forgets ?_
    rw [globalLabel] at found
    split at found
    · next place isPlace =>
        cases found
        exact HasPrograms.at holds (Course.HasPrograms.labels holds |>.program_lt isPlace) _
    · cases found
  · exact holds

theorem leavesPrograms_clearProgram (name : List UInt8) : LeavesPrograms (clearProgram name) machine := by
  refine follows_get (follows_lift (fun _ _ => holds) fun place _ => ?_)
  refine follows_lift (fun _ _ => holds) fun library cleared => ?_
  obtain ⟨labels, inside, count, positive⟩ := Library.clear_eq_ok cleared
  have own : machine.program < machine.library.count := Course.HasPrograms.own holds
  have edited {program : Nat} (isInside : program < library.count) (address : Option Nat) :=
    @hasPrograms_edited machine _ labels _ isInside address
  have same := program_clearReturns { machine with library }
  dsimp only
  split
  · next isCleared => exact edited (isCleared ▸ by omega) none
  split
  · exact edited (by omega) _
  · have kept : machine.program < library.count := by omega
    exact edited (same.trans_lt kept) _

theorem leavesPrograms_edit {instruction : Instruction} (edits : instruction.opcode.editsPrograms = true)
    (memory : Nat) (flags : Flags) (target : JumpTarget) :
    LeavesPrograms (effect memory flags instruction target) machine := by
  have own : machine.program < machine.library.count := Course.HasPrograms.own holds
  obtain ⟨opcode, argument⟩ := instruction
  cases opcode <;> cases edits
  case clearProgram =>
    exact follows_get (follows_lift (fun _ _ => holds) fun name _ => leavesPrograms_clearProgram holds name)
  case gotoLine => exact leavesPrograms_gotoLine holds argument
  case gotoNewProgram => exact leavesPrograms_gotoNewProgram holds
  case deleteLines =>
    exact follows_get (follows_lift (fun _ _ => holds) fun count _ => leavesPrograms_deleteLines holds count)
  case singleStep =>
    obtain ⟨address, moved⟩ := exists_nextLine_eq machine
    exact follows_of_on rfl (moved ▸ HasPrograms.at holds own address)
  case backStep =>
    obtain ⟨address, moved⟩ := exists_previousLine_eq machine
    exact follows_of_on rfl (moved ▸ HasPrograms.at holds own address)
  case clearAll =>
    exact ⟨Library.hasLabels_ofPrograms _, Nat.zero_lt_one, fun caller member => absurd member List.not_mem_nil⟩

theorem leavesPrograms_perform (instruction : Instruction) (target : JumpTarget) :
    LeavesPrograms (perform instruction target) machine := by
  cases edits : instruction.opcode.editsPrograms with
  | false => exact holds.moves (follows_perform instruction) edits
  | true =>
      have edited := leavesPrograms_edit holds edits machine.memory machine.flags target
      refine follows_get (follows_bind (fun error left ends => ?_) fun _ left ends => ?_)
      all_goals rw [LeavesPrograms, Follows, ends] at edited
      · exact edited
      · exact follows_of_on rfl (course_afterCommand left _ ▸ edited)

/-- A search that fails goes on, or the calls that it led to cannot be left. -/
theorem leavesPrograms_failSample : LeavesPrograms failSample machine :=
  follows_failSample (fun _ _ _ => holds.leave _) fun _ _ _ _ solver goesOn =>
    holds.searches_left solver goesOn

end

/-! ## Every machine that can be reached -/

/-- What executes, and what is returned to, decides on the programs of a machine. -/
theorem HasPrograms.of_core {left : Machine} (holds : machine.HasPrograms) (same : left.core = machine.core) :
    left.HasPrograms := by
  simp only [core, Core.mk.injEq] at same
  obtain ⟨program, library, returns, solver, integrator, -, -⟩ := same
  obtain ⟨labels, own, callers⟩ : machine.course.HasPrograms := holds
  rw [HasPrograms, course, program, library, returns, solver, integrator]
  refine ⟨labels, own, fun caller member => ?_⟩
  have home := callers caller member
  cases caller <;> exact home

theorem HasPrograms.fetch (holds : machine.HasPrograms) {address : Nat} {fetched : Program.Fetched × Library}
    (found : machine.library.fetch machine.program address true = .ok fetched) :
    ({ machine with library := fetched.2 } : Machine).HasPrograms := by
  obtain ⟨program, left, -, -, rfl⟩ := Library.fetch_eq_ok found
  have labels : machine.library.HasLabels := Course.HasPrograms.labels holds
  refine ⟨labels.set _ _, ?_, fun caller member => ?_⟩
  · exact (Course.HasPrograms.own holds).trans_le (machine.library.count_set _ _).ge
  · have home := Course.HasPrograms.callers holds caller member
    refine lt_of_lt_of_le ?_ (machine.library.count_set _ _).ge
    cases caller <;> exact home

theorem isLasting_hasPrograms : IsLasting Machine.HasPrograms where
  core holds same := holds.of_core same
  put holds _ := holds
  heed holds := holds
  leave holds := holds
  fetch holds found := holds.fetch found
  perform instruction target _ holds := leavesPrograms_perform holds instruction target
  failSample holds := leavesPrograms_failSample holds
  insertLine instruction _ holds := leavesPrograms_insertLine holds instruction
  deleteLine holds := leavesPrograms_deleteLine holds
  store argument value machine holds := by
    rw [Machine.HasPrograms, course_on fun _ => evolves_store argument value]
    exact holds

theorem HasPrograms.after (holds : machine.HasPrograms) (input : Input) : (machine.after input).HasPrograms := by
  by_cases silent : input = .interrupt
  · rw [silent, Machine.after, interrupt]
    split
    · exact holds
    · exact holds
  · exact isLasting_hasPrograms.after holds silent

theorem hasPrograms_new (memory : Nat) (generator : Generator) : (new memory generator).HasPrograms :=
  ⟨Library.hasLabels_ofPrograms _, Nat.zero_lt_one, fun _ member => absurd member List.not_mem_nil⟩

theorem callers_course (machine : Machine) : machine.course.callers = machine.returns.items.map Frame.caller := by
  rw [Course.callers, course, Returns.bare_eq]
  cases machine.returns.items <;> rfl

end Machine

namespace StateFile

variable {version : Nat} {calls : Calls} {machine result : Machine}

/-- The reader makes sure of the programs that are returned to, and searches come back with those they go home
to. -/
theorem IsRestored.hasPrograms (restored : IsRestored calls.names version machine result)
    (distinct : ∀ frame ∈ machine.returns.items, frame.caller.IsDistinct) (holds : machine.HasPrograms)
    (checked : IsChecked result.checkEditor) : result.checkEditor.HasPrograms := by
  obtain ⟨editor, same, -⟩ := result.exists_checkEditor
  rw [same] at checked ⊢
  obtain ⟨program, found, -⟩ := checked.place
  have labels := Library.hasLabels_ofPrograms result.library.programs
  rw [← checked.labels] at labels
  refine ⟨labels, Library.lt_count_of_get? found, fun caller member => ?_⟩
  rw [Machine.callers_course] at member
  have programs : result.library.count = machine.library.count := restored.programs
  have inMachine : caller ∈ machine.course.callers := by
    rwa [Machine.callers_course, ← restored.returns.callers distinct]
  cases caller with
  | program index =>
      obtain ⟨frame, isFrame, isCaller⟩ := List.mem_map.mp member
      obtain ⟨program, found, -⟩ := checked.frames frame isFrame index isCaller
      exact Library.lt_count_of_get? found
  | solver =>
      have home : machine.solver.program < machine.library.count :=
        Course.HasPrograms.callers holds .solver inMachine
      rwa [← programs, ← restored.solver.program] at home
  | integrator =>
      have home : machine.integrator.program < machine.library.count :=
        Course.HasPrograms.callers holds .integrator inMachine
      rwa [← programs, ← restored.integrator.program] at home

end StateFile

namespace Machine

variable {machine other : Machine}

theorem HasPrograms.reloadedBy (holds : machine.HasPrograms) (placed : machine.IsPlaced)
    (distinct : ∀ frame ∈ machine.returns.items, frame.caller.IsDistinct) (otherHolds : other.HasPrograms)
    (version : Nat) (platform : String) (generator : Generator) :
    (machine.reloadedBy version platform generator other).HasPrograms := by
  obtain ⟨calls, placed, settled⟩ := placed
  rw [Machine.reloadedBy]
  split
  · next bytes wrote =>
      rw [StateFile.load]
      split
      · exact otherHolds
      · split
        · next result found =>
            have checked := StateFile.isChecked_of_read? found
            obtain ⟨restored, isRestored, rfl⟩ :=
              StateFile.exists_restored_of_read? placed.toIsStored settled wrote found
            exact (isRestored.hasPrograms distinct holds checked).of_core rfl
        · exact (hasPrograms_new other.memory generator).of_core rfl
  · exact otherHolds

theorem IsReachable.hasPrograms (reachable : machine.IsReachable) : machine.HasPrograms := by
  induction reachable with
  | new _ generator => exact hasPrograms_new _ generator
  | after _ input holds => exact holds.after input
  | reloaded reachable distinct _ version platform generator holds otherHolds =>
      exact holds.reloadedBy reachable.isPlaced distinct otherHolds version platform generator

/-- The programs that a machine comes to are in its library. -/
structure FindsPrograms (machine : Machine) : Prop where
  current : ∃ program, machine.library.get? machine.program = some program
  frames : ∀ frame ∈ machine.returns.items, ∀ index, frame.caller = .program index →
    ∃ program, machine.library.get? index = some program
  solver : (∃ frame ∈ machine.returns.items, frame.caller = .solver) →
    ∃ program, machine.library.get? machine.solver.program = some program
  integrator : (∃ frame ∈ machine.returns.items, frame.caller = .integrator) →
    ∃ program, machine.library.get? machine.integrator.program = some program
  labels : ∀ name program address, machine.library.findGlobal? name = some (program, address) →
    ∃ found, machine.library.get? program = some found

/-- In every machine that can be reached, the program that it is in exists, and so do those that its calls and
its searches return to. -/
theorem IsReachable.findsPrograms (reachable : machine.IsReachable) : machine.FindsPrograms := by
  obtain ⟨labels, own, callers⟩ := reachable.hasPrograms
  have found {index : Nat} (inside : index < machine.library.count) :
      ∃ program, machine.library.get? index = some program := ⟨_, List.getElem?_eq_getElem inside⟩
  have home {frame : Frame} (member : frame ∈ machine.returns.items) :
      (machine.course.home frame.caller).1 < machine.library.count :=
    callers frame.caller (machine.callers_course ▸ List.mem_map_of_mem member)
  refine
    { current := found own
      frames := fun frame member index isCaller => ?_
      solver := fun ⟨frame, member, isCaller⟩ => ?_
      integrator := fun ⟨frame, member, isCaller⟩ => ?_
      labels := fun name program address isLabel => found (labels.program_lt isLabel) }
  all_goals
    have inside := home member
    rw [isCaller] at inside
    exact found inside

/-- One program calls another one, and a line is entered while that one runs. -/
def interruptedInputs : List Input :=
  ["PRGM", "LBL \"A\"", "XEQ \"PPPP\"", "PRGM", "GTO ..", "PRGM", "LBL \"PPPP\"", "RTN", "PRGM",
    "XEQ \"A\""].map .enter ++ [.execute 1, .execute 1, .enter "2"]

/-- A machine that was stopped in one program at the address of a line of another one. -/
def interrupted : Machine := interruptedInputs.foldl after (initial default)

/-- The address is that of the call, but the program that was called is there, and that which is returned to. -/
theorem findsPrograms_interrupted :
    (interrupted.IsReachable ∧ interrupted.program = 1 ∧ interrupted.address = some 4 ∧
      interrupted.returns.items.map Frame.caller = [.program 0]) ∧ interrupted.FindsPrograms := by
  have reachable : interrupted.IsReachable := (IsReachable.initial default).afterAll interruptedInputs
  have places : interrupted.program = 1 ∧ interrupted.address = some 4 ∧
      interrupted.returns.items.map Frame.caller = [.program 0] := by decide +kernel
  exact ⟨⟨reachable, places⟩, reachable.findsPrograms⟩

end Machine

end Keystroke
