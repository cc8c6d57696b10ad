import Mathlib
import Keystroke.Proofs.Calls.Frames
import Keystroke.Proofs.Returning

/-!
# Leaving calls

What the frame of a call speaks of is found when the call is left, and goes with it. Returns, dropped calls
and the way back to the solver leave a sound machine.
-/

namespace Keystroke

open Outcome Keystroke.Action
open Variable (globalLevel)
open Machine (packageName parkedEditorName keptMarks)

namespace Machine

variable {machine : Machine}

/-! ## Leaving a call -/

/-- The machine with a top frame that says nothing of a package. -/
def emptied (machine : Machine) : Machine :=
  { machine with
    returns := machine.returns.modifyTop fun frame => { frame with savesStack := false } }

/-- A machine that is ready to leave its call: the package is gone, though the frame may still speak
of it. -/
def IsLeavable (machine : Machine) : Prop := machine.emptied.IsSound

/-- An action that succeeds and makes a machine ready to leave its call. -/
def Finishes (machine : Machine) (finish : Action Unit) : Prop :=
  ∃ left, finish.on machine = (.ok (), left) ∧ left.IsLeavable ∧ left.returns = machine.returns

theorem IsSound.isLeavable (sound : machine.IsSound) (saves : machine.callSavesStack = false) :
    machine.IsLeavable := by
  have same : (machine.returns.modifyTop fun frame => { frame with savesStack := false }) =
      machine.returns := by
    rw [callSavesStack] at saves
    generalize machine.returns = returns at saves ⊢
    rcases returns with ⟨limit, overflow, _ | ⟨frame, rest⟩⟩
    · rfl
    · have plain : frame.savesStack = false := saves
      simp [BoundedStack.modifyTop, ← plain]
  rwa [IsLeavable, emptied, same]

/-- The call that is left takes with it what it kept and its locals. -/
theorem IsLeavable.drop (leavable : machine.IsLeavable) {frame : Frame} {rest : List Frame}
    (items : machine.returns.items = frame :: rest) :
    (({ machine with returns := { machine.returns with items := rest } } : Machine).purgeLevel
      machine.level).IsSound := by
  obtain ⟨calls, sound, settled⟩ := leavable
  have top : calls.returns =
      { machine.returns with items := { frame with savesStack := false } :: rest } := by
    rw [← settled.returns, emptied, BoundedStack.modifyTop, items]
  have level : machine.level = rest.length + 1 := by simp [Machine.level, BoundedStack.depth, items]
  have dropped := settled.drop sound.marked (congrArg BoundedStack.items (settled.returns.trans top))
  have sameLevel : machine.emptied.level = machine.level := by simp [Machine.level, emptied]
  have sameReturns : ({ machine.emptied.returns with items := rest } : Returns) =
      { machine.returns with items := rest } := by
    rw [emptied, BoundedStack.modifyTop, items]
  rw [sameLevel, sameReturns] at dropped
  refine ⟨_, sound.of_sublist List.filter_sublist (top ▸ rfl) (top ▸ rfl) (top ▸ Nat.le_succ _)
      (fun entry member => ?_) ?_, dropped⟩
  · have below := (List.mem_filter.mp member).2
    rw [decide_eq_true_eq, level] at below
    exact Int.le_of_lt_add_one below
  · have matched := sound.frames
    rw [top] at matched
    refine matched.2.congr fun name other le => ?_
    simp only [List.mem_map]
    refine exists_congr fun entry => and_congr_left fun key => ?_
    have atLevel : entry.level = other := congrArg Prod.snd key
    refine (List.mem_filter.trans (and_iff_left ?_)).symm
    rw [decide_eq_true_eq, level, atLevel]
    exact Int.lt_add_one_of_le le

theorem IsSettled.mem_kept {calls : Calls} (settled : machine.IsSettled calls 0)
    (sound : calls.IsSound machine.nextStorage) {entry : Variable} :
    entry ∈ calls.kept ↔ entry ∈ machine.bindings.entries ∧ entry.name ∈ reservedNames := by
  rw [← settled.bindings.kept, List.mem_filter, sound.names, Variable.isKept, List.contains_iff_mem]

/-- The package that a frame speaks of is among the locals of its call. -/
theorem IsSound.exists_package (sound : machine.IsSound) (saves : machine.callSavesStack = true) :
    ∃ package bindings calls,
      (takePackage machine.level).on machine = (.ok package, { machine with bindings }) ∧
      calls.IsSound machine.nextStorage ∧
      ({ machine with bindings } : Machine).emptied.IsSettled calls 0 ∧
      package.Fits (calls.free machine.nextStorage) ∧ package.HasInputs := by
  obtain ⟨calls, sound, settled⟩ := sound
  have same : machine.returns = calls.returns := settled.returns
  obtain ⟨frame, rest, items⟩ : ∃ frame rest, machine.returns.items = frame :: rest := by
    apply List.exists_cons_of_ne_nil
    intro empty
    simp [callSavesStack, BoundedStack.top?, empty] at saves
  have level : machine.level = rest.length + 1 := by simp [Machine.level, BoundedStack.depth, items]
  have matched := sound.frames
  rw [← same, items] at matched
  have savesHere : frame.savesStack = true := by
    simpa [callSavesStack, BoundedStack.top?, items] using saves
  obtain ⟨entry, member, key⟩ := List.mem_map.mp (matched.1.1.mp savesHere)
  have named : entry.name = packageName := congrArg Prod.fst key
  have atLevel : entry.level = machine.level := level ▸ congrArg Prod.snd key
  obtain ⟨after, front, behind, purged, parts, settledAfter⟩ :=
    settled.bindings.take sound.marked sound.unique member
  have sublist : List.Sublist (front ++ behind) calls.kept := by
    rw [parts]
    exact List.Sublist.append_left (List.sublist_cons_self ..) _
  obtain ⟨package, unpacked, fit, has⟩ := (named ▸ sound.values entry member).unpack_package
  let emptiedCalls : Calls := { calls with returns := machine.emptied.returns, kept := front ++ behind }
  have free : ∀ number, calls.free machine.nextStorage number →
      emptiedCalls.free machine.nextStorage number := fun _ => Calls.free_of_sublist _ sublist
  have top : machine.emptied.returns =
      { machine.returns with items := { frame with savesStack := false } :: rest } := by
    rw [emptied, BoundedStack.modifyTop, items]
  have depth : machine.emptied.returns.depth = machine.returns.depth := by simp [emptied]
  refine ⟨package, after, emptiedCalls, ?_, sound.of_sublist sublist ?_ ?_ (same ▸ depth.le) ?_ ?_, ?_,
    fit.imp free, has⟩
  · rw [named, atLevel] at purged
    simp [takePackage, on_bind, purged, unpacked]
  · rw [top, same]
  · rw [top, same]
  · intro entry member
    rw [depth, same]
    exact (sound.levels entry (sublist.subset member)).2
  · have keys := sound.keys
    rw [parts] at matched keys
    rw [top]
    exact matched.forget keys key
  · exact settled.transfer (depth ▸ settledAfter.imp free) free fun number member =>
      settled.taken number ((sublist.flatMap _).subset member)

theorem IsSound.finishes (sound : machine.IsSound) {finish : Action Unit} (takes : TakesPackage finish)
    (saves : machine.callSavesStack = true) : machine.Finishes finish := by
  obtain ⟨next, rfl, changes⟩ := takes
  obtain ⟨package, bindings, calls, took, soundCalls, settled, fit, has⟩ := sound.exists_package saves
  obtain ⟨stack, lastX, flags, does, fits⟩ :=
    (changes package { machine with bindings }).resolve_left fun crashes => crashes.1 has
  obtain ⟨fitsStack, fitsLastX⟩ := fits _ settled.stack settled.lastX fit
  refine ⟨{ machine with bindings, stack, lastX, flags }, ?_,
    ⟨calls, soundCalls, { settled with stack := fitsStack, lastX := fitsLastX }⟩, rfl⟩
  simpa only [on_bind, on_get, took] using does

theorem IsLeavable.isSound_of_empty (leavable : machine.IsLeavable)
    (empty : machine.returns.items = []) : machine.IsSound := by
  have same : machine.emptied.returns = machine.returns := by
    rw [emptied, BoundedStack.modifyTop, empty]
  rwa [IsLeavable, emptied, show (machine.returns.modifyTop fun frame =>
    { frame with savesStack := false }) = machine.returns from same] at leavable

/-- The editor that a frame speaks of is among the locals of its call. -/
theorem IsLeavable.exists_parkedEditor (leavable : machine.IsLeavable) {frame : Frame} {rest : List Frame}
    (items : machine.returns.items = frame :: rest) (parks : frame.parksEditor = true) :
    ∃ package editor, machine.bindings.value? parkedEditorName machine.level = some package ∧
      Editor.unpack package = .ok editor ∧ editor.name ∉ reservedNames := by
  obtain ⟨calls, sound, settled⟩ := leavable
  have level : machine.level = rest.length + 1 := by simp [Machine.level, BoundedStack.depth, items]
  have matched := sound.frames
  rw [← settled.returns] at matched
  simp only [emptied, BoundedStack.modifyTop, items] at matched
  obtain ⟨entry, member, key⟩ := List.mem_map.mp (matched.1.2.mp parks)
  have named : entry.name = parkedEditorName := congrArg Prod.fst key
  have atLevel : entry.level = machine.level := level ▸ congrArg Prod.snd key
  obtain ⟨front, behind, entries, found⟩ :=
    settled.bindings.exists_lookup_kept sound.marked sound.unique member
  obtain ⟨editor, unpacked, unreserved⟩ := (named ▸ sound.values entry member).unpack_editor
  refine ⟨entry.value, editor, ?_, unpacked, unreserved⟩
  change machine.bindings = _ at entries
  change machine.bindings.lookup? _ _ = _ at found
  rw [Variables.value?, ← named, ← atLevel, found, entries]
  simp [Variables.get?]

/-- What is ready to be left has the editor that comes back. -/
theorem IsLeavable.exists_returnedEditor (leavable : machine.IsLeavable) {frame : Frame} {rest : List Frame}
    (items : machine.returns.items = frame :: rest) :
    ∃ editor, machine.returnedEditor frame = .ok editor ∧ ({ machine with editor } : Machine).IsLeavable := by
  by_cases parks : frame.parksEditor = true
  · obtain ⟨package, editor, value, unpacked, unreserved⟩ := leavable.exists_parkedEditor items parks
    have sound : machine.emptied.IsSound := leavable
    refine ⟨some editor, ?_, sound.setEditor unreserved⟩
    rw [returnedEditor, if_pos parks, value]
    exact congrArg (Except.map some) unpacked
  · refine ⟨machine.editor, ?_, leavable⟩
    rw [returnedEditor, if_neg parks]

theorem returns_afterReturn (machine : Machine) (frame : Frame) (rest : List Frame)
    (editor : Option Editor) :
    (machine.afterReturn frame rest editor).returns = { machine.returns with items := rest } := by
  rw [afterReturn, setFlag, (inSameCalls_checkEditor _).returns]
  rfl

/-- The latest call is left with what it parked. -/
theorem IsLeavable.exists_on_popReturn (leavable : machine.IsLeavable) {frame : Frame} {rest : List Frame}
    (items : machine.returns.items = frame :: rest) :
    ∃ editor, popReturn.on machine = (.ok (some frame), machine.afterReturn frame rest editor) ∧
      (machine.afterReturn frame rest editor).IsSound := by
  obtain ⟨editor, returned, leavableToo⟩ := leavable.exists_returnedEditor items
  refine ⟨editor, ?_, (leavableToo.drop items).checkEditor.setFlag Flags.liftDisabled frame.liftDisabled⟩
  rw [on_popReturn_cons items, returned]

theorem IsLeavable.on_popReturn (leavable : machine.IsLeavable) :
    ∃ left, popReturn.on machine = (.ok machine.returns.top?, left) ∧ left.IsSound ∧
      left.returns.items = machine.returns.items.tail := by
  cases items : machine.returns.items with
  | nil =>
      have top : machine.returns.top? = none := by simp [BoundedStack.top?, items]
      exact ⟨machine, top ▸ on_popReturn_nil items, leavable.isSound_of_empty items, by simp [items]⟩
  | cons frame rest =>
      have top : machine.returns.top? = some frame := by simp [BoundedStack.top?, items]
      obtain ⟨editor, pops, sound⟩ := leavable.exists_on_popReturn items
      refine ⟨machine.afterReturn frame rest editor, top ▸ pops, sound, ?_⟩
      rw [returns_afterReturn]
      rfl

theorem IsSound.leads_leave {α : Type} {property : α → Machine → Prop} (sound : machine.IsSound)
    {finish : Action Unit} (finishes : machine.callSavesStack = true → machine.Finishes finish)
    {next : Option Frame → Action α}
    (leads : ∀ left : Machine, left.IsSound → left.returns.items = machine.returns.items.tail →
      (next machine.returns.top?).Gives Calls.IsSound left property) :
    (if machine.callSavesStack then finish >>= fun _ => popReturn >>= next
      else popReturn >>= next).Gives Calls.IsSound machine property := by
  refine leads_ite (fun saves => ?_) fun saves => ?_
  · obtain ⟨between, finished, leavable, same⟩ := finishes saves
    obtain ⟨left, popped, soundLeft, items⟩ := leavable.on_popReturn
    rw [same] at popped items
    rw [LeadsIn, on_bind_ok finished, on_bind_ok popped]
    exact leads left soundLeft items
  · obtain ⟨left, popped, soundLeft, items⟩ := (sound.isLeavable (by simpa using saves)).on_popReturn
    rw [LeadsIn, on_bind_ok popped]
    exact leads left soundLeft items

/-! ## Dropping calls -/

theorem IsSound.dropCalls (sound : machine.IsSound) (fuel : Nat) : (dropCalls fuel machine).IsSound := by
  induction fuel generalizing machine with
  | zero => exact sound
  | succ fuel ih =>
      rw [Machine.dropCalls]
      split
      · exact sound
      · next frame rest items =>
          -- Whether or not there is a package to give up, the call can be left.
          obtain ⟨left, isLeft, leavable, same⟩ : ∃ left,
              (if machine.callSavesStack then abandonFunction.attempt machine else machine) = left ∧
                left.IsLeavable ∧ left.returns = machine.returns := by
            split
            · next saves =>
                obtain ⟨left, abandoned, leavable, same⟩ := sound.finishes takesPackage_abandonFunction saves
                exact ⟨left, by rw [attempt, abandoned], leavable, same⟩
            · next saves => exact ⟨machine, rfl, sound.isLeavable (by simpa using saves), rfl⟩
          have dropped := leavable.drop (same ▸ items)
          rw [show left.level = machine.level by rw [level, level, same]] at dropped
          dsimp only
          rw [isLeft]
          exact ih dropped

theorem IsSound.clearReturns (sound : machine.IsSound) : machine.clearReturns.IsSound := by
  refine ((sound.dropCalls machine.returns.depth).purgeLevel_of_empty ?_).checkEditor
  rw [items_dropCalls]
  exact List.drop_length ..

/-! ## The law -/

/-- A new machine is in no call. -/
theorem isSound_new {memory : Nat} (room : memory ≤ Grid.sizeLimit) (generator : Generator) :
    (new memory generator).IsSound :=
  ⟨initialCalls reservedNames,
    { toIsStored := Calls.isStored_nil rfl rfl rfl (Nat.zero_le _) _
      frames := trivial
      names := rfl
      solver := show [] ∉ reservedNames by decide
      integrator := show [] ∉ reservedNames by decide
      errors := by simp [initialCalls] },
    isSettled_new registersName_unreserved room generator⟩

/-- That a search is not idle is another matter. -/
theorem awaits_isSound (machine : Machine) (caller : Caller) :
    machine.Awaits Calls.IsSound caller := by
  have located {detail : String} (other : detail ≠ Error.packageLost) :
      Error.KeepsPackages ⟨.internalError, detail⟩ := other
  cases caller with
  | program index => trivial
  | solver => exact ⟨trivial, .inr (located (by decide))⟩
  | integrator => exact ⟨trivial, .inr (located (by decide))⟩

instance : Calls.Maintained Calls.IsSound where
  new := isSound_new
  solver sound := sound.solver
  integrator sound := sound.integrator
  addError sound keeps := sound.addError keeps
  forgetErrors sound := { sound with errors := by simp }
  setSolver sound _ unreserved := { sound with solver := unreserved }
  setIntegrator sound _ unreserved := { sound with integrator := unreserved }
  push sound saves parks _ room := sound.push saves parks room
  stopOnReturn sound := sound.stopOnReturn
  keepPackage := leads_keepPackage
  parkEditor := leads_parkEditor
  leave sound takes leads := IsSound.leads_leave sound (IsSound.finishes sound takes)
    fun left soundLeft items =>
      leads left soundLeft items fun frame _ => awaits_isSound left frame.caller
  clearReturns := IsSound.clearReturns

end Machine

end Keystroke
