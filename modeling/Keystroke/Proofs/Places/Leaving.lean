import Mathlib
import Keystroke.Proofs.Calls.Returns
import Keystroke.Proofs.Places.Entering

/-!
# Leaving calls with searches in place

When a call is left, its caller goes on from where it was. What the call kept may be gone, or be something
else by then, but this only makes the return fail, with the call still there.
-/

namespace Keystroke

open Outcome Keystroke.Action
open Machine (packageName parkedEditorName)

namespace Machine

variable {lost : Prop} {older floor : Nat} {machine : Machine} {calls : Calls}

/-! ## What calls kept -/

theorem leads_takePackage_inPlace (settled : machine.IsSettled calls floor) (bare : calls.names = [])
    (level : Int) :
    (takePackage level).LeadsIn (Error.KeepsPlaces lost) machine (IsSettled calls floor)
      fun package after => package.Fits (calls.free after.nextStorage) := by
  refine leads_get ?_
  cases purged : machine.bindings.purge packageName level with
  | none => exact leads_failWith settled _ Error.keepsPlaces_packageLost
  | some removed =>
      obtain ⟨fits, settledAfter⟩ := settled.bindings.purge (by simp [bare]) removed purged
      refine leads_set ?_
      rw [LeadsIn, on_lift]
      exact ⟨{ settled with bindings := settledAfter }, (CallPackage.ends_unpack fits).within⟩

/-- What takes a package stays in the call, whether or not there is one. -/
theorem TakesPackage.leads_inPlace {finish : Action Unit} (takes : TakesPackage finish)
    (settled : machine.IsSettled calls floor) (bare : calls.names = []) :
    finish.LeadsIn (Error.KeepsPlaces lost) machine (IsSettled calls floor) fun _ _ => True := by
  obtain ⟨next, rfl, changes⟩ := takes
  refine leads_get ((leads_takePackage_inPlace settled bare _).bind
    fun package after settledAfter fit => ?_)
  obtain ⟨-, crashes⟩ | ⟨stack, lastX, flags, does, fits⟩ := changes package after
  · rw [LeadsIn, crashes]
    exact ⟨settledAfter, Error.keepsPlaces_of_isOrdinary (by decide)⟩
  · obtain ⟨fitsStack, fitsLastX⟩ := fits _ settledAfter.stack settledAfter.lastX fit
    rw [LeadsIn, does]
    exact ⟨{ settledAfter with stack := fitsStack, lastX := fitsLastX }, trivial⟩

theorem leads_restoreEditor_inPlace (settled : machine.IsSettled calls floor) (bare : calls.names = [])
    (level : Int) :
    (restoreEditor level).LeadsIn (Error.KeepsPlaces lost) machine (IsSettled calls floor)
      fun _ _ => True := by
  refine leads_get ?_
  split
  · exact ⟨settled, trivial⟩
  · refine leads_lift settled (Editor.ordinary_unpack _) fun editor _ => ⟨?_, trivial⟩
    exact settled.setEditor (by simp [bare])

/-! ## Leaving a call -/

/-- The call that is left takes its locals with it, and its caller may go on. -/
theorem IsSettled.drop_inPlace (settled : machine.IsSettled calls 0)
    (placed : calls.IsPlaced lost older machine.nextStorage) {frame : Frame} {rest : List Frame}
    (items : machine.returns.items = frame :: rest) :
    let left := ({ machine with returns := { machine.returns with items := rest } } :
      Machine).purgeLevel machine.level
    left.Obeys (Calls.IsPlaced lost older) ∧
      left.Awaits (Calls.IsPlaced lost older) frame.caller := by
  have nothing : calls.kept = [] := by
    rw [← settled.bindings.kept, placed.names]
    exact List.filter_eq_nil_iff.mpr fun entry _ => by simp [Variable.isKept]
  have dropped := settled.drop placed.marked items
  obtain ⟨placedBelow, awaits⟩ := placed.drop (settled.returns ▸ items) nothing
  rw [← settled.returns] at placedBelow awaits
  rw [← settled.solver, ← settled.integrator] at awaits
  rw [nothing, List.filter_nil, ← nothing] at dropped
  exact ⟨⟨_, placedBelow, dropped⟩, awaits⟩

theorem leads_popReturn_inPlace (settled : machine.IsSettled calls 0)
    (placed : calls.IsPlaced lost older machine.nextStorage) :
    popReturn.Gives (Calls.IsPlaced lost older) machine fun popped left =>
      popped = machine.returns.top? ∧ left.returns.items = machine.returns.items.tail ∧
        ∀ frame ∈ machine.returns.top?, left.Awaits (Calls.IsPlaced lost older) frame.caller := by
  refine leads_get ?_
  cases items : machine.returns.items with
  | nil =>
      have top : machine.returns.top? = none := by simp [BoundedStack.top?, items]
      simp only [top]
      exact ⟨⟨calls, placed, settled⟩, rfl, items, by simp⟩
  | cons frame rest =>
      have top : machine.returns.top? = some frame := by simp [BoundedStack.top?, items]
      simp only [top]
      -- Whether or not an editor has come back, the call is still there.
      have pops : ∀ after : Machine, after.IsSettled calls machine.nextStorage → (do
            let popped ← (← get).returns.pop
            modify fun left =>
              (({ left with returns := popped.2 : Machine }.purgeLevel machine.level).checkEditor).setFlag
                Flags.liftDisabled frame.liftDisabled
            return some frame : Action (Option Frame)).Gives (Calls.IsPlaced lost older) after
          fun popped left => popped = some frame ∧ left.returns.items = rest ∧
            ∀ other ∈ some frame, left.Awaits (Calls.IsPlaced lost older) (Frame.caller other) := by
        intro after settledAfter
        have same : after.returns = machine.returns := settledAfter.returns.trans settled.returns.symm
        have popped : after.returns.pop = .ok (frame, { after.returns with items := rest }) := by
          rw [BoundedStack.pop, same, items]
        have placedAfter := Calls.Law.later placed settledAfter.floor
        obtain ⟨dropped, awaits⟩ :=
          (settledAfter.lower (Nat.zero_le _)).drop_inPlace placedAfter (same ▸ items)
        rw [show after.level = machine.level by rw [level, level, same]] at dropped awaits
        have checked := inSameCalls_checkEditor
          (({ after with returns := { after.returns with items := rest } } : Machine).purgeLevel
            machine.level)
        refine leads_get ?_
        rw [popped]
        refine ⟨dropped.checkEditor.change (fun calls settled => { settled with }) le_rfl, rfl,
          congrArg BoundedStack.items checked.returns, ?_⟩
        rintro other ⟨rfl⟩
        exact checked.awaits awaits
      refine leads_ite (fun _ => ?_) fun _ => pops machine settled.raise
      have restores : (restoreEditor machine.level).LeadsIn (Error.KeepsPlaces lost) machine _ _ :=
        leads_restoreEditor_inPlace settled.raise placed.names machine.level
      have restored : (restoreEditor machine.level).Gives (Calls.IsPlaced lost older) machine _ :=
        restores.gives placed
      exact restored.bind fun _ after _ holds => pops after holds.2

theorem leads_leave_inPlace {α : Type} {property : α → Machine → Prop}
    (obeys : machine.Obeys (Calls.IsPlaced lost older)) {finish : Action Unit}
    (takes : TakesPackage finish) {next : Option Frame → Action α}
    (leads : ∀ left : Machine, left.Obeys (Calls.IsPlaced lost older) →
      left.returns.items = machine.returns.items.tail →
        (∀ frame ∈ machine.returns.top?, left.Awaits (Calls.IsPlaced lost older) frame.caller) →
          (next machine.returns.top?).Gives (Calls.IsPlaced lost older) left property) :
    (if machine.callSavesStack then finish >>= fun _ => popReturn >>= next
      else popReturn >>= next).Gives (Calls.IsPlaced lost older) machine property := by
  obtain ⟨calls, placed, settled⟩ := obeys
  have pops : ∀ between : Machine, between.IsSettled calls machine.nextStorage →
      (popReturn >>= next).Gives (Calls.IsPlaced lost older) between property := by
    intro between settledBetween
    have same : between.returns = machine.returns :=
      settledBetween.returns.trans settled.returns.symm
    have popped := leads_popReturn_inPlace (settledBetween.lower (Nat.zero_le _))
      (Calls.Law.later placed settledBetween.floor)
    rw [same] at popped
    refine popped.bind fun frame left obeysLeft => ?_
    rintro ⟨rfl, items, awaits⟩
    exact leads left obeysLeft items awaits
  refine leads_ite (fun _ => ?_) fun _ => pops machine settled.raise
  have finishes : finish.LeadsIn (Error.KeepsPlaces lost) machine _ _ :=
    takes.leads_inPlace settled.raise placed.names
  have finished : finish.Gives (Calls.IsPlaced lost older) machine _ := finishes.gives placed
  exact finished.bind fun _ between _ holds => pops between holds.2

/-! ## Dropping calls -/

theorem Obeys.dropCalls_inPlace (obeys : machine.Obeys (Calls.IsPlaced lost older)) (fuel : Nat) :
    (dropCalls fuel machine).Obeys (Calls.IsPlaced lost older) := by
  induction fuel generalizing machine with
  | zero => exact obeys
  | succ fuel ih =>
      obtain ⟨calls, placed, settled⟩ := id obeys
      have abandoned : (abandonFunction.attempt machine).IsSettled calls machine.nextStorage := by
        have takes : abandonFunction.LeadsIn (Error.KeepsPlaces False) machine _ _ :=
          takesPackage_abandonFunction.leads_inPlace settled.raise placed.names
        exact takes.1
      rw [dropCalls]
      split
      · exact obeys
      · next frame rest items =>
          -- The call goes whether or not its package is there.
          obtain ⟨left, isLeft, settledLeft⟩ : ∃ left,
              (if machine.callSavesStack then abandonFunction.attempt machine else machine) = left ∧
                left.IsSettled calls machine.nextStorage := by
            split
            · exact ⟨_, rfl, abandoned⟩
            · exact ⟨_, rfl, settled.raise⟩
          have same : left.returns = machine.returns :=
            settledLeft.returns.trans settled.returns.symm
          obtain ⟨dropped, -⟩ := (settledLeft.lower (Nat.zero_le _)).drop_inPlace
            (Calls.Law.later placed settledLeft.floor) (same ▸ items)
          rw [show left.level = machine.level by rw [level, level, same]] at dropped
          dsimp only
          rw [isLeft]
          exact ih dropped

theorem Obeys.clearReturns_inPlace (obeys : machine.Obeys (Calls.IsPlaced lost older)) :
    machine.clearReturns.Obeys (Calls.IsPlaced lost older) := by
  refine ((obeys.dropCalls_inPlace machine.returns.depth).purgeLevel_of_empty ?_).checkEditor
  rw [items_dropCalls]
  exact List.drop_length ..

/-! ## The law -/

/-- A new machine has no search among its calls. -/
theorem obeys_new_inPlace {memory : Nat} (room : memory ≤ Grid.sizeLimit) (generator : Generator) :
    (new memory generator).Obeys (Calls.IsPlaced lost older) :=
  ⟨initialCalls [],
    { toIsStored := Calls.isStored_nil rfl rfl rfl (Nat.zero_le _) _
      names := rfl
      inPlace := ⟨Nat.zero_le _, Nat.zero_le _, nofun, nofun⟩
      located := by simp [initialCalls]
      losses := fun _ => Nat.zero_le _ },
    isSettled_new List.not_mem_nil room generator⟩

instance (lost : Prop) (older : Nat) : Calls.Maintained (Calls.IsPlaced lost older) where
  new := obeys_new_inPlace
  solver _ := List.not_mem_nil
  integrator _ := List.not_mem_nil
  addError placed keeps := placed.addError keeps
  forgetErrors placed := { placed with located := by simp, losses := fun _ => Nat.zero_le _ }
  setSolver placed idle _ := { placed with inPlace := placed.inPlace.setSolver idle }
  setIntegrator placed idle _ := { placed with inPlace := placed.inPlace.setIntegrator idle }
  push placed _ _ awaits room := placed.push awaits room
  stopOnReturn placed := placed.markTop fun _ => rfl
  keepPackage obeys _ package fit _ := leads_keepPackage_inPlace obeys package fit
  parkEditor := leads_parkEditor_inPlace
  leave obeys takes leads := leads_leave_inPlace obeys takes leads
  clearReturns := Obeys.clearReturns_inPlace

end Machine

end Keystroke
