import Mathlib
import Keystroke.Machine.Solving
import Keystroke.Proofs.Calls.Upkeep

/-!
# Searches and integrations

Samples are calls like others, and no step of a search changes what is solved for or integrated over. A
search that gets its sample has no call, so it may change as it likes before it asks for the next one. So
the solver and the integrator uphold a law that is maintained.
-/

namespace Keystroke

open Outcome Keystroke.Action

namespace Machine

variable {machine : Machine}

theorem IsSettled.putResults {calls : Calls} {floor : Nat} (settled : machine.IsSettled calls floor)
    {results : List Value} (fit : ∀ value ∈ results, value.Fits fun _ => False) :
    (machine.putResults results).IsSettled calls floor := by
  have fitResults : ∀ value ∈ results, value.Fits (calls.free machine.nextStorage) :=
    fun value member => (fit value member).imp fun _ => False.elim
  refine { settled with stack := ?_ }
  rw [Machine.putResults]
  dsimp only
  split
  · intro value member
    rcases List.mem_append.mp member with result | older
    · exact fitResults value result
    · exact settled.stack value (List.mem_of_mem_drop older)
  · exact Stack.Within.ofValues fitResults false

theorem ordinary_realNamed (machine : Machine) (name : List UInt8) :
    IsOrdinary (machine.realNamed name) := by
  rw [realNamed]
  split
  · trivial
  · next value _ => exact value.ordinary_asReal.bind fun _ _ => trivial

theorem ordinary_limitNamed (machine : Machine) (name : List UInt8) :
    IsOrdinary (machine.limitNamed name) :=
  (ordinary_realNamed machine name).bind fun found _ => by
    cases found with
    | none => exact ends_fail rfl
    | some x => trivial

variable {law : Calls → Nat → Prop} [Calls.Law law]

omit [Calls.Law law] in
/-- A caller may still be called for when only values have changed. -/
theorem InSameCalls.awaits [Calls.Law law] {after : Machine} (same : machine.InSameCalls after)
    {caller : Caller} (awaits : machine.Awaits law caller) : after.Awaits law caller := by
  rwa [Machine.Awaits, same.returns, same.solver, same.integrator]

theorem Obeys.storeName (obeys : machine.Obeys law) {name : List UInt8}
    (unreserved : name ∉ Calls.Law.names law) (x : Binary64) :
    (storeName name (.real x)).Gives law machine fun _ after => True ∧ machine.InSameCalls after :=
  obeys.leads_same fun _ same settled => leads_storeName settled (same ▸ unreserved) (Value.fits_real x)

theorem vacant_of_isSolving (idle : ¬ machine.isSolving = true) :
    Calls.Law.vacant law .solver machine.returns := by
  refine Calls.Law.vacant_of_not_mem fun member => idle ?_
  obtain ⟨frame, isFrame, isSolver⟩ := List.mem_map.mp member
  exact List.any_eq_true.mpr ⟨frame, isFrame, beq_iff_eq.mpr isSolver⟩

theorem vacant_of_isIntegrating (idle : ¬ machine.isIntegrating = true) :
    Calls.Law.vacant law .integrator machine.returns := by
  refine Calls.Law.vacant_of_not_mem fun member => idle ?_
  obtain ⟨frame, isFrame, isIntegrator⟩ := List.mem_map.mp member
  exact List.any_eq_true.mpr ⟨frame, isFrame, beq_iff_eq.mpr isIntegrator⟩

variable [Calls.Maintained law]

/-! ## Calling a sample -/

theorem leads_callSample (obeys : machine.Obeys law) {caller : Caller}
    (awaits : machine.Awaits law caller) (function : List UInt8) {variableName : List UInt8}
    (unreserved : variableName ∉ Calls.Law.names law) (value : Binary64) :
    (callSample caller function variableName value).Upholds law machine := by
  refine leads_get ?_
  split
  · exact leads_fail obeys rfl
  · refine (obeys.storeName unreserved value).bind fun _ stored obeysStored same => leads_modify ?_
    refine (leads_pushReturn ?_ ?_ none).bind fun _ _ obeysAfter _ => leads_fail obeysAfter rfl
    · exact obeysStored.change (fun _ settled => { settled with }) le_rfl
    · exact same.2.awaits awaits

/-- Nothing is begun in the calls of a program that has stopped. -/
theorem Obeys.clearReturnsUnlessRunning (obeys : machine.Obeys law) {caller : Caller}
    (vacant : Calls.Law.vacant law caller machine.returns) :
    clearReturnsUnlessRunning.Gives law machine fun _ after =>
      Calls.Law.vacant law caller after.returns := by
  change (if machine.isRunning then machine else machine.clearReturns).Obeys law ∧
    Calls.Law.vacant law caller (if machine.isRunning then machine else machine.clearReturns).returns
  split
  · exact ⟨obeys, vacant⟩
  · refine ⟨obeys.clearReturns, Calls.Law.vacant_of_not_mem ?_⟩
    simp [items_clearReturns]

/-! ## The solver -/

theorem leads_sampleForSolver (obeys : machine.Obeys law)
    (vacant : Calls.Law.vacant law .solver machine.returns) (point : UInt8) (stage : Solver.Stage) :
    (sampleForSolver point stage).Upholds law machine := by
  refine leads_get (leads_ite (fun _ => leads_fail obeys rfl) fun _ => ?_)
  have sampling : ({ machine with solver := machine.solver.sampling point stage } : Machine).Obeys law :=
    obeys.setSolver (.inl vacant) obeys.solver
  refine leads_callSample sampling ?_ _ obeys.solver _
  exact ⟨vacant, .inl (Solver.isStage_code stage)⟩

theorem leads_finishSolving (obeys : machine.Obeys law)
    (vacant : Calls.Law.vacant law .solver machine.returns) (verdict : Verdict) :
    (finishSolving verdict).Upholds law machine := by
  refine leads_get ?_
  have unreserved : ({ machine.solver with stage := 0 } : Solver).answer.2.variableName ∉
      Calls.Law.names law := by
    rw [Solver.variableName_answer]
    exact obeys.solver
  generalize ({ machine.solver with stage := 0 } : Solver).answer = answered at unreserved ⊢
  obtain ⟨root, solver⟩ := answered
  refine leads_set ((Obeys.storeName (obeys.setSolver (.inl vacant) unreserved) unreserved root).bind
    fun _ stored obeysStored _ => leads_modify ?_)
  have obeysPut : (stored.putResults [.real root, .real solver.previousPoint,
      .real solver.currentResult, .real (.ofNat verdict.code)]).Obeys law :=
    obeysStored.change (fun _ settled => settled.putResults (by simp)) le_rfl
  generalize stored.putResults _ = put at obeysPut ⊢
  have obeysMoved : ({ put with program := solver.program, address := solver.address } :
      Machine).Obeys law := obeysPut.change (fun _ settled => { settled with }) le_rfl
  refine leads_ite (fun _ => leads_modify (leads_fail ?_ rfl)) fun _ => ⟨obeysMoved, trivial⟩
  exact obeysMoved.change (fun _ settled => { settled with }) le_rfl

theorem leads_takeSample (obeys : machine.Obeys law) (awaits : machine.Awaits law .solver)
    (result : Option Binary64) : (takeSample result).Upholds law machine := by
  obtain ⟨vacant, located⟩ := awaits
  refine leads_get (leads_set ?_)
  have obeysTaken : ({ machine with solver := { machine.solver with
      currentResult := result.getD Binary64.largest : Solver } } : Machine).Obeys law :=
    obeys.setSolver (.inl vacant) obeys.solver
  refine leads_ite (fun _ => leads_finishSolving obeysTaken vacant _) fun _ => ?_
  extract_lets given patient
  have patience : patient.variableName = machine.solver.variableName ∧
      patient.stage = machine.solver.stage := by
    dsimp only [patient]
    split <;> exact ⟨rfl, rfl⟩
  obtain ⟨named, inStage⟩ := patience
  clear_value patient
  have unreserved : (patient.advance result).2.variableName ∉ Calls.Law.names law := by
    rw [Solver.variableName_advance, named]
    exact obeys.solver
  have obeysSet := obeysTaken.setSolver (.inl vacant) unreserved
  refine leads_modify ?_
  dsimp only
  split
  · exact leads_sampleForSolver obeysSet vacant _ _
  · exact leads_finishSolving obeysSet vacant _
  · next idle =>
      rcases located with isStage | permitted
      · obtain ⟨stage, found⟩ := isStage.exists_stage
        exact absurd idle (patient.continues_advance (inStage ▸ found) result).asks
      · exact leads_failWith obeysSet _ permitted

theorem leads_returnToSolver (obeys : machine.Obeys law) (awaits : machine.Awaits law .solver)
    (failed stops : Bool) : (returnToSolver failed stops).Upholds law machine := by
  unfold returnToSolver
  extract_lets goesOn
  have leads : ∀ before : Machine, before.Obeys law → before.Awaits law .solver →
      (goesOn ()).Upholds law before := by
    intro before obeysBefore awaits
    refine leads_get (leads_ite (fun idle => ?_) fun _ => leads_ite (fun _ => ?_) fun _ => ?_)
    · rcases awaits.2 with isStage | permitted
      · exact absurd isStage.1 (idle ▸ by decide)
      · exact leads_failWith obeysBefore _ permitted
    · exact leads_takeSample obeysBefore awaits none
    · refine leads_lift obeysBefore obeysBefore.ordinary_x fun x _ => ?_
      split
      · exact leads_takeSample obeysBefore awaits _
      · exact leads_takeSample obeysBefore awaits none
  exact leads_ite
    (fun _ => leads_modify (leads _ (obeys.setSolver (.inl awaits.1) obeys.solver) awaits))
    fun _ => leads _ obeys awaits

theorem leads_beginSolving (obeys : machine.Obeys law) {name : List UInt8}
    (unreserved : name ∉ Calls.Law.names law) : (beginSolving name).Upholds law machine := by
  refine leads_get (leads_ite (fun _ => leads_fail obeys rfl) fun idle => ?_)
  refine leads_lift obeys (ordinary_realNamed machine name) fun first _ => ?_
  refine leads_lift obeys obeys.ordinary_x fun x _ => ?_
  refine leads_lift obeys x.ordinary_asReal fun second _ => ?_
  refine (obeys.clearReturnsUnlessRunning (vacant_of_isSolving idle)).bind
    fun _ after obeysAfter vacant => leads_modify ?_
  refine leads_sampleForSolver ?_ ?_ _ _
  · have obeysNamed : ({ after with alpha := name } : Machine).Obeys law :=
      obeysAfter.change (fun _ settled => { settled with }) le_rfl
    exact obeysNamed.setSolver (.inl vacant) (by simpa using unreserved)
  · exact vacant

/-! ## The integrator -/

theorem leads_sampleForIntegrator (obeys : machine.Obeys law)
    (awaits : machine.Awaits law .integrator) : sampleForIntegrator.Upholds law machine :=
  leads_get <| leads_ite (fun _ => leads_fail obeys rfl) fun _ =>
    leads_callSample obeys awaits _ obeys.integrator _

theorem leads_finishIntegrating (obeys : machine.Obeys law)
    (vacant : Calls.Law.vacant law .integrator machine.returns) :
    finishIntegrating.Upholds law machine := by
  refine leads_get (leads_modify ?_)
  have obeysDone : ({ machine with integrator := { machine.integrator with stage := 0 } } :
      Machine).Obeys law := obeys.setIntegrator (.inl vacant) obeys.integrator
  refine (obeysDone.stays fun _ _ => stays_pushLift (Value.fits_real _)).bind
    fun _ lifted obeysLifted _ => ?_
  refine (obeysLifted.stays fun _ _ => stays_push (Value.fits_real _)).bind
    fun _ pushed obeysPushed _ => leads_modify ?_
  refine leads_ite (fun _ => leads_modify (leads_fail ?_ rfl)) fun _ => ⟨?_, trivial⟩
  · exact obeysPushed.change (fun _ settled => { settled with }) le_rfl
  · exact obeysPushed.change (fun _ settled => { settled with }) le_rfl

/-- The integrator goes on if it has begun, or has got a sample that it has asked for. -/
theorem leads_returnToIntegrator (obeys : machine.Obeys law)
    (awaits : machine.integrator.stage = 1 ∧ Calls.Law.vacant law .integrator machine.returns ∨
      machine.Awaits law .integrator) : returnToIntegrator.Upholds law machine := by
  have vacant : Calls.Law.vacant law .integrator machine.returns := by
    rcases awaits with ⟨-, vacant⟩ | ⟨vacant, -⟩ <;> exact vacant
  have located : (machine.integrator.stage = 1 ∨
      machine.integrator.stage = Integrator.betweenSamples) ∨
        Calls.Law.permitted law ⟨.internalError, Error.integratorIdle⟩ := by
    rcases awaits with ⟨first, -⟩ | ⟨-, between | permitted⟩
    · exact .inl (.inl first)
    · exact .inl (.inr between)
    · exact .inr permitted
  refine leads_get ?_
  extract_lets result
  clear_value result
  have unreserved : (machine.integrator.advance result).2.variableName ∉ Calls.Law.names law := by
    rw [Integrator.variableName_advance]
    exact obeys.integrator
  have obeysSet := obeys.setIntegrator (.inl vacant) unreserved
  refine leads_set ?_
  dsimp only
  split
  · refine leads_sampleForIntegrator obeysSet ⟨vacant, located.imp_left fun begun => ?_⟩
    exact (machine.integrator.continues_advance begun result).stage
  · exact leads_finishIntegrating obeysSet vacant
  · next idle =>
      rcases located with begun | permitted
      · exact absurd idle (machine.integrator.continues_advance begun result).asks
      · exact leads_failWith obeysSet _ permitted

theorem leads_beginIntegrating (obeys : machine.Obeys law) {name : List UInt8}
    (unreserved : name ∉ Calls.Law.names law) : (beginIntegrating name).Upholds law machine := by
  refine leads_get (leads_ite (fun _ => leads_fail obeys rfl) fun idle => ?_)
  refine leads_lift obeys (ordinary_limitNamed machine _) fun lower _ => ?_
  refine leads_lift obeys (ordinary_limitNamed machine _) fun upper _ => ?_
  refine leads_lift obeys (ordinary_realNamed machine _) fun accuracy _ => ?_
  refine (obeys.clearReturnsUnlessRunning (vacant_of_isIntegrating idle)).bind
    fun _ after obeysAfter vacant => leads_modify ?_
  refine leads_returnToIntegrator ?_ (.inl ⟨rfl, vacant⟩)
  have obeysNamed : ({ after with alpha := name } : Machine).Obeys law :=
    obeysAfter.change (fun _ settled => { settled with }) le_rfl
  exact obeysNamed.setIntegrator (.inl vacant) unreserved

end Machine

end Keystroke
