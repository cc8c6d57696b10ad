import Mathlib
import Keystroke.Proofs.Calls.Searches

/-!
# Returns and errors

Returns, failed samples and errors uphold a law that is maintained. What comes of an error is dealt with
under the law, since only a failed sample can raise another one.
-/

namespace Keystroke

open Outcome Keystroke.Action

namespace Machine

variable {law : Calls → Nat → Prop} [Calls.Law law] [Calls.Maintained law] {machine : Machine}

/-! ## Returns -/

omit [Calls.Maintained law] in
theorem leads_endProgram (obeys : machine.Obeys law) (empty : machine.returns.items = []) :
    endProgram.Upholds law machine :=
  leads_modify (leads_fail (obeys.purgeLevel_of_empty empty).checkEditor.leaveEnd rfl)

theorem leads_resume (obeys : machine.Obeys law) {frame : Frame}
    (awaits : machine.Awaits law frame.caller) (kind : ReturnKind) :
    (resume frame kind).Upholds law machine := by
  cases caller : frame.caller with
  | program index => exact obeys.resume_program caller kind
  | solver =>
      rw [resume, caller]
      exact leads_returnToSolver obeys (caller ▸ awaits) false false
  | integrator =>
      rw [resume, caller]
      exact leads_returnToIntegrator obeys (.inr (caller ▸ awaits))

theorem leads_returnFromCall (obeys : machine.Obeys law) (kind : ReturnKind) :
    (returnFromCall kind).Upholds law machine := by
  refine leads_get (leads_ite (fun _ => ⟨?_, trivial⟩) fun _ => ?_)
  · exact obeys.clearReturns.change (fun _ settled => { settled with }) le_rfl
  · refine Calls.Maintained.leave obeys takesPackage_finishFunction fun left obeysLeft items awaits => ?_
    split
    · next none =>
        refine leads_endProgram obeysLeft ?_
        rw [items, List.head?_eq_none_iff.mp none]
        rfl
    · next frame popped => exact leads_resume obeysLeft (awaits frame popped) kind

/-! ## Failed samples and returns with an error -/

/-- On the way down to the solver its call is found. -/
theorem leads_unwindToSolver (obeys : machine.Obeys law) {fuel : Nat}
    (solving : .solver ∈ machine.returns.items.map Frame.caller)
    (enough : machine.returns.depth ≤ fuel) :
    (unwindToSolver fuel).Gives law machine fun _ left => left.Awaits law .solver := by
  induction fuel generalizing machine with
  | zero =>
      rw [List.eq_nil_of_length_eq_zero (Nat.le_zero.mp enough)] at solving
      cases solving
  | succ fuel ih =>
      obtain ⟨frame, rest, items⟩ : ∃ frame rest, machine.returns.items = frame :: rest := by
        refine List.exists_cons_of_ne_nil fun empty => ?_
        rw [empty] at solving
        cases solving
      have top : machine.returns.top? = some frame := by rw [BoundedStack.top?, items]; rfl
      refine leads_get (Calls.Maintained.leave obeys takesPackage_discardFunction
        fun left obeysLeft below awaits => ?_)
      rw [top]
      refine leads_ite (fun isSolver => ⟨obeysLeft, isSolver ▸ awaits frame top⟩) fun other => ?_
      rw [items, List.tail_cons] at below
      have deeper : .solver ∈ left.returns.items.map Frame.caller := by
        rw [items, List.map_cons, List.mem_cons] at solving
        exact below ▸ solving.resolve_left fun same => other same.symm
      have fewer : left.returns.depth ≤ fuel := by
        rw [BoundedStack.depth, items, List.length_cons] at enough
        rw [BoundedStack.depth, below]
        omega
      exact (ih obeysLeft deeper fewer).bind fun _ after obeysAfter awaits => ⟨obeysAfter, awaits⟩

theorem leads_failSample (obeys : machine.Obeys law) (solving : machine.isSolving = true) :
    failSample.Upholds law machine := by
  have inFrames : .solver ∈ machine.returns.items.map Frame.caller := by
    obtain ⟨frame, isFrame, isSolver⟩ := List.any_eq_true.mp solving
    exact List.mem_map.mpr ⟨frame, isFrame, beq_iff_eq.mp isSolver⟩
  have unwinds : unwind.Gives law machine fun _ left => left.Awaits law .solver :=
    leads_get (leads_unwindToSolver obeys inFrames le_rfl)
  exact unwinds.bind fun stops _ obeysAfter awaits =>
    leads_returnToSolver obeysAfter awaits true stops

theorem leads_returnWithError (obeys : machine.Obeys law) {error : Error}
    (permitted : Calls.Law.permitted law error) : (returnWithError error).Upholds law machine := by
  refine leads_get (leads_ite (fun fails => ?_) fun _ => ?_)
  · exact leads_failSample obeys (Bool.and_eq_true_iff.mp fails).2
  refine Calls.Maintained.leave obeys takesPackage_discardFunction fun left obeysLeft items _ => ?_
  split
  · refine leads_modify (leads_throw ?_ permitted)
    exact obeysLeft.change (fun _ settled => { settled with }) le_rfl
  · exact leads_throw obeysLeft permitted

namespace Obeys

/-! ## Errors -/

theorem stop (obeys : machine.Obeys law) : machine.stop.Obeys law := by
  have stopped : ({ machine with isRunning := false, task := none } : Machine).Obeys law :=
    obeys.change (fun _ settled => { settled with }) le_rfl
  rw [Machine.stop]
  dsimp only
  split
  · have quiet : ({ machine with isRunning := false, task := none, printsOnStop := false } :
        Machine).Obeys law := obeys.change (fun _ settled => { settled with }) le_rfl
    have prints := quiet.stays fun _ _ => stays_printX
    split
    · next printed ran => exact (prints.of_ok ran).1
    · next error printed ran =>
        obtain ⟨printed, permitted⟩ := prints.of_error ran
        exact printed.addError permitted
  · exact stopped

theorem report (obeys : machine.Obeys law) {error : Error}
    (permitted : Calls.Law.permitted law error) : (machine.report error).Obeys law := by
  have noted : ({ machine with task := none, lastError := error.kind.code } : Machine).Obeys law :=
    obeys.change (fun _ settled => { settled with }) le_rfl
  exact noted.addError permitted

theorem handleWithin (obeys : machine.Obeys law) (fuel : Nat) {error : Error}
    (permitted : Calls.Law.permitted law error) : (handleWithin fuel error machine).Obeys law := by
  -- Only a failed sample raises another error, and with it the handler starts over.
  fun_induction Machine.handleWithin fuel error machine
  case case1 | case2 | case3 | case5 => exact obeys
  case case4 => exact obeys.skipLine
  case case6 => exact obeys.stop
  case case7 | case9 => exact obeys.change (fun _ settled => { settled with }) le_rfl
  case case8 => exact obeys.report permitted
  case case10 ran _ _ _ _ _ _ fails =>
      have solving := (Bool.and_eq_true_iff.mp fails).2
      exact ((leads_failSample obeys solving).of_ok ran).1
  case case11 ran _ _ _ _ _ _ fails ih =>
      have solving := (Bool.and_eq_true_iff.mp fails).2
      obtain ⟨left, permittedNext⟩ := (leads_failSample obeys solving).of_error ran
      exact ih left permittedNext
  case case12 before _ _ _ _ _ _ _ _ _ =>
      have moved : ({ before with address := before.executed } : Machine).Obeys law :=
        obeys.change (fun _ settled => { settled with }) le_rfl
      exact moved.stop.report permitted

theorem handle (obeys : machine.Obeys law) {error : Error}
    (permitted : Calls.Law.permitted law error) : (machine.handle error).Obeys law :=
  obeys.handleWithin _ permitted

theorem performing {action : Action Unit} (upholds : action.Upholds law machine) :
    (performing action machine).Obeys law := by
  rw [Machine.performing]
  split
  · next left ran => exact (upholds.of_ok ran).1
  · next error left ran =>
      obtain ⟨obeysLeft, permitted⟩ := upholds.of_error ran
      exact obeysLeft.handle permitted

end Obeys

end Machine

end Keystroke
