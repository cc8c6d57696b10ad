import Mathlib
import Keystroke.Proofs.Calls.SearchSteps
import Keystroke.Proofs.Evolution.Performing
import Keystroke.Proofs.Returning

/-!
# Courses of searches

A search goes on by calling its function again, or it is done and goes home to where it was begun. Its call
may be refused when the return stack is full, and then the machine is in the program of the function already.
-/

namespace Keystroke

open Std.Do Keystroke.Action

namespace Integrator

variable (integrator : Integrator)

/-- Where an integration goes home to. -/
def home : Nat × Option Nat := (integrator.program, integrator.address)

theorem home_nextPass : integrator.nextPass.2.home = integrator.home := by
  unfold nextPass
  dsimp only
  split <;> rfl

theorem home_endPass : integrator.endPass.2.home = integrator.home := by
  unfold endPass
  dsimp only
  split_ifs
  · rfl
  · exact home_nextPass _
  · exact home_nextPass _

theorem home_advance (result : Option Binary64) : (integrator.advance result).2.home = integrator.home := by
  unfold advance
  split
  · rfl
  · dsimp only
    split_ifs
    · rfl
    · exact home_endPass _
  · rfl

end Integrator

namespace Solver

variable (solver : Solver)

/-- Where a search for a root goes home to. -/
def home : Nat × Option Nat := (solver.program, solver.address)

theorem home_of_purpose {solver other : Solver} (same : solver.purpose = other.purpose) :
    solver.home = other.home :=
  Prod.ext (congrArg Purpose.program same) (congrArg Purpose.address same)

theorem home_advance (result : Option Binary64) : (solver.advance result).2.home = solver.home :=
  home_of_purpose (solver.purpose_advance result)

theorem home_answer : solver.answer.2.home = solver.home := home_of_purpose solver.purpose_answer

theorem home_start (first second : Binary64) : (solver.start first second).home = solver.home := by
  unfold start
  dsimp only
  split_ifs <;> rfl

end Solver

namespace Course

/-- The course at a place. -/
def goTo (course : Course) (program : Nat) (address : Option Nat) : Course :=
  { course with program, address }

/-- The course when calls have been left down to some frames. -/
def returned (course : Course) (frames : List Frame) : Course :=
  { course with returns := Returns.bare { course.returns with items := frames } }

/-- A call on a course: its frame is put on those that are there. -/
def IsCalled (course : Course) (frame : Frame) (after : Course) : Prop :=
  ∃ below : Returns, below.bare = course.returns ∧ course.returns.isFull = false ∧
    after = { course with returns := { below with items := frame :: below.items } }

/-- Where what was called goes home to, when it is done: a search to where it was begun. -/
def home (course : Course) : Caller → Nat × Option Nat
  | .program index => (index, none)
  | .solver => course.solverHome
  | .integrator => course.integratorHome

/-- How a search goes on from a course. -/
inductive Searches (search : Caller) (course : Course) : Outcome Unit → Course → Prop
  /-- It cannot go on. -/
  | fails (error : Error) : Searches search course (.error error) course
  /-- It calls its function. -/
  | samples {name : List UInt8} {program address : Nat} {frame : Frame} {after : Course}
      (found : course.library.findGlobal? name = some (program, address)) (caller : frame.caller = search)
      (stops : frame.stops = false) (called : (course.goTo program (some address)).IsCalled frame after) :
      Searches search course (.error (.plain .run)) after
  /-- It cannot call its function, and has gone to it. -/
  | overflows {name : List UInt8} {program address : Nat}
      (found : course.library.findGlobal? name = some (program, address))
      (full : course.returns.isFull = true) :
      Searches search course (.error (.plain course.returns.overflow)) (course.goTo program (some address))
  /-- It is done, and a program goes on with the result, or the machine stops. -/
  | finishes {outcome : Outcome Unit} (ends : outcome = .ok () ∨ outcome = .error (.plain .stop)) :
      Searches search course outcome (course.goTo (course.home search).1 (course.home search).2)

end Course

namespace Action

variable {α β : Type}

/-- How an action ends on a machine, and which course it leaves. -/
def Follows (action : Action α) (relation : Outcome α → Course → Prop) (machine : Machine) : Prop :=
  relation (action.on machine).1 (action.on machine).2.course

variable {relation : Outcome β → Course → Prop} {machine : Machine}

theorem follows_of_on {action : Action β} {outcome : Outcome β} {left : Machine}
    (ends : action.on machine = (outcome, left)) (related : relation outcome left.course) :
    action.Follows relation machine := by
  rwa [Follows, ends]

theorem follows_bind {first : Action α} {next : α → Action β}
    (failed : ∀ error left, first.on machine = (.error error, left) → relation (.error error) left.course)
    (goesOn : ∀ result left, first.on machine = (.ok result, left) →
      (next result).Follows relation left) : (first >>= next).Follows relation machine := by
  rcases ends : first.on machine with ⟨error | result, left⟩
  · exact follows_of_on (on_bind_error ends next) (failed error left ends)
  · rw [Follows, on_bind_ok ends next]
    exact goesOn result left ends

/-- What comes first stays on course. -/
theorem follows_bind_stays {first : Action α} {next : α → Action β}
    (stays : ∀ origin, first.Evolves false origin) (failed : ∀ error, relation (.error error) machine.course)
    (goesOn : ∀ result left, first.on machine = (.ok result, left) → left.course = machine.course →
      (next result).Follows relation left) :
    (first >>= next).Follows relation machine :=
  follows_bind (fun error _ ends => course_of_on stays ends ▸ failed error)
    fun result left ends => goesOn result left ends (course_of_on stays ends)

theorem follows_get {next : Machine → Action β} (goesOn : (next machine).Follows relation machine) :
    (get >>= next).Follows relation machine := goesOn

theorem follows_modify {change : Machine → Machine} {next : Unit → Action β}
    (goesOn : (next ()).Follows relation (change machine)) :
    (modify change >>= next).Follows relation machine := goesOn

theorem follows_set {after : Machine} {next : Unit → Action β}
    (goesOn : (next ()).Follows relation after) : (set after >>= next).Follows relation machine := goesOn

theorem follows_lift {outcome : Outcome α} {next : α → Action β}
    (failed : ∀ error, outcome = .error error → relation (.error error) machine.course)
    (goesOn : ∀ result, outcome = .ok result → (next result).Follows relation machine) :
    ((liftM outcome : Action α) >>= next).Follows relation machine := by
  refine follows_bind (fun error left ends => ?_) fun result left ends => ?_
  all_goals
    rw [on_lift] at ends
    obtain ⟨rfl, rfl⟩ := Prod.mk.inj ends
  · exact failed _ rfl
  · exact goesOn _ rfl

end Action

namespace Machine

variable {machine : Machine}

/-! ## Frames -/

/-- The frame of a call from a machine. -/
def callFrame (machine : Machine) (caller : Caller) (address : Option Nat) : Frame :=
  { caller, address, liftDisabled := machine.flags.get Flags.liftDisabled }

/-- A call puts its frame on those that are there, if there is room for it. -/
theorem follows_pushReturn {β : Type} {relation : Outcome β → Course → Prop} {next : Unit → Action β}
    (caller : Caller) (address : Option Nat)
    (overflows : machine.returns.isFull = true →
      relation (.error (.plain machine.returns.overflow)) machine.course)
    (goesOn : machine.returns.isFull = false → (next ()).Follows relation { machine with
      returns := { machine.returns with items := machine.callFrame caller address :: machine.returns.items } }) :
    (pushReturn caller address >>= next).Follows relation machine := by
  have pushes : (pushReturn caller address).on machine =
      if machine.returns.isFull then (.error (.plain machine.returns.overflow), machine)
      else (.ok (), { machine with returns := { machine.returns with
        items := machine.callFrame caller address :: machine.returns.items } }) := by
    rw [pushReturn, on_bind_ok (on_get _)]
    dsimp only
    rw [on_bind, on_lift, BoundedStack.push]
    cases full : machine.returns.isFull <;> rfl
  cases full : machine.returns.isFull with
  | true =>
      rw [full, if_pos rfl] at pushes
      exact follows_of_on (on_bind_error pushes _) (overflows full)
  | false =>
      rw [full, if_neg Bool.false_ne_true] at pushes
      rw [Follows, on_bind_ok pushes]
      exact goesOn full

theorem isFull_course (machine : Machine) : machine.course.returns.isFull = machine.returns.isFull := by
  rw [course, Returns.bare_eq, BoundedStack.isFull, BoundedStack.isFull, BoundedStack.depth, BoundedStack.depth]
  cases items : machine.returns.items <;> rfl

theorem overflow_course (machine : Machine) :
    machine.course.returns.overflow = machine.returns.overflow := by
  rw [course, Returns.bare_eq]

/-- A call puts its frame on those that are there. -/
theorem isCalled_push (room : machine.returns.isFull = false) (caller : Caller) (address : Option Nat) :
    machine.course.IsCalled (machine.callFrame caller address) ({ machine with
      returns := { machine.returns with
        items := machine.callFrame caller address :: machine.returns.items } } : Machine).course :=
  ⟨machine.returns, rfl, (isFull_course machine).trans room, rfl⟩

/-! ## Samples and results -/

section

variable {start : Course} (onCourse : machine.IsOn start)

include onCourse

theorem follows_callSample (search : Caller) (function name : List UInt8) (value : Binary64) :
    (callSample search function name value).Follows (start.Searches search) machine := by
  refine follows_get ?_
  cases found : machine.library.findGlobal? function with
  | none => exact onCourse ▸ .fails _
  | some place =>
      obtain ⟨program, address⟩ := place
      refine follows_bind_stays (fun _ => evolves_storeName _ _) (fun error => onCourse ▸ .fails error)
        fun _ left _ same => follows_modify ?_
      obtain rfl : left.course = start := same.trans onCourse
      replace found : left.course.library.findGlobal? function = some (program, address) := by
        rwa [same]
      let called : Machine := { left with program, address := some address }
      refine @follows_pushReturn called _ _ _ search none (fun full => ?_) fun room => ?_
      · rw [← overflow_course]
        exact .overflows found ((isFull_course left).trans full)
      · exact .samples found rfl rfl (@isCalled_push called room search none)

theorem follows_sampleForSolver (point : UInt8) (stage : Solver.Stage) :
    (sampleForSolver point stage).Follows (start.Searches .solver) machine := by
  refine follows_get ?_
  split
  · exact onCourse ▸ .fails _
  · refine follows_set (follows_callSample ?_ _ _ _ _)
    exact onCourse

theorem follows_finishSolving (verdict : Verdict) :
    (finishSolving verdict).Follows (start.Searches .solver) machine := by
  have home := Solver.home_answer { machine.solver with stage := 0 }
  refine follows_get ?_
  generalize ({ machine.solver with stage := 0 } : Solver).answer = answered at home ⊢
  obtain ⟨root, solver⟩ := answered
  refine follows_set (follows_bind_stays (fun _ => evolves_storeName _ _) (fun error => ?_)
    fun _ left _ same => follows_modify ?_)
  all_goals
    have found : ({ machine with solver } : Machine).course = start := by
      rw [← onCourse, course, course, show (solver.program, solver.address) = _ from home]
      rfl
  · rw [found]
    exact .fails error
  · have isHome : start.home .solver = solver.home := (congrArg Course.solverHome found).symm
    obtain rfl : left.course = start := same.trans found
    have finishes {outcome : Outcome Unit} (ends : outcome = .ok () ∨ outcome = .error (.plain .stop)) :
        left.course.Searches .solver outcome _ := .finishes ends
    rw [isHome] at finishes
    split
    · exact finishes (.inr rfl)
    · exact finishes (.inl rfl)

theorem follows_advance {advanced : Solver.Step × Solver} (home : advanced.2.home = machine.solver.home) :
    Action.Follows (do
      modify fun machine => { machine with solver := advanced.2 }
      match advanced.1 with
      | .sample point stage => sampleForSolver point stage
      | .finish verdict => finishSolving verdict
      | .idle => failWith .internalError "SOLVER IDLE") (start.Searches .solver) machine := by
  have found : ({ machine with solver := advanced.2 } : Machine).IsOn start := by
    rw [IsOn, ← onCourse, course, course, show (advanced.2.program, advanced.2.address) = _ from home]
    rfl
  refine follows_modify ?_
  split
  · exact follows_sampleForSolver found _ _
  · exact follows_finishSolving found _
  · exact found ▸ .fails _

theorem follows_takeSample (result : Option Binary64) :
    (takeSample result).Follows (start.Searches .solver) machine := by
  refine follows_get (follows_set ?_)
  split
  · refine follows_finishSolving ?_ _
    exact onCourse
  · refine follows_advance ?_ ((Solver.home_advance _ _).trans ?_)
    · exact onCourse
    · dsimp only
      split <;> rfl

theorem follows_returnToSolver (failed stops : Bool) :
    (returnToSolver failed stops).Follows (start.Searches .solver) machine := by
  have goesOn {left : Machine} (found : left.IsOn start) :
      (returnToSolver failed false).Follows (start.Searches .solver) left := by
    rw [returnToSolver, if_neg Bool.false_ne_true]
    refine follows_get ?_
    dsimp only
    split
    · exact found ▸ .fails _
    · split
      · exact follows_takeSample found none
      · refine follows_lift (fun error _ => found ▸ .fails error) fun x _ => ?_
        split <;> exact follows_takeSample found _
  cases stops with
  | true =>
      refine follows_modify (goesOn ?_)
      exact onCourse
  | false => exact goesOn onCourse

theorem follows_sampleForIntegrator : sampleForIntegrator.Follows (start.Searches .integrator) machine := by
  refine follows_get ?_
  dsimp only
  split
  · exact onCourse ▸ .fails _
  · exact follows_callSample onCourse _ _ _ _

theorem follows_finishIntegrating : finishIntegrating.Follows (start.Searches .integrator) machine := by
  have idle : ({ machine with integrator := { machine.integrator with stage := 0 } } : Machine).IsOn start :=
    onCourse
  have isHome : start.home .integrator = machine.integrator.home :=
    (congrArg Course.integratorHome onCourse).symm
  refine follows_get (follows_modify ?_)
  refine follows_bind_stays (fun _ => evolves_pushLift _) (fun error => idle ▸ .fails error)
    fun _ lifted _ same => ?_
  refine follows_bind_stays (fun _ => evolves_push _) (fun error => (same.trans idle) ▸ .fails error)
    fun _ left _ sameToo => follows_modify ?_
  obtain rfl : left.course = start := (sameToo.trans same).trans idle
  have finishes {outcome : Outcome Unit} (ends : outcome = .ok () ∨ outcome = .error (.plain .stop)) :
      left.course.Searches .integrator outcome _ := .finishes ends
  rw [isHome] at finishes
  split
  · exact finishes (.inr rfl)
  · exact finishes (.inl rfl)

theorem follows_advanceIntegrator {advanced : Integrator.Step × Integrator}
    (home : advanced.2.home = machine.integrator.home) :
    Action.Follows (do
      set { machine with integrator := advanced.2 }
      match advanced.1 with
      | .sample => sampleForIntegrator
      | .finish => finishIntegrating
      | .idle => failWith .internalError "INTEGRATOR IDLE") (start.Searches .integrator) machine := by
  have found : ({ machine with integrator := advanced.2 } : Machine).IsOn start := by
    rw [IsOn, ← onCourse, course, course, show (advanced.2.program, advanced.2.address) = _ from home]
    rfl
  refine follows_set ?_
  split
  · exact follows_sampleForIntegrator found
  · exact follows_finishIntegrating found
  · exact found ▸ .fails _

theorem follows_returnToIntegrator : returnToIntegrator.Follows (start.Searches .integrator) machine :=
  follows_get (follows_advanceIntegrator onCourse (machine.integrator.home_advance _))

end

end Machine

end Keystroke
