import Mathlib
import Keystroke.Proofs.Calls.Upkeep

/-!
# Entering calls

A machine is sound if its frames say what its calls keep. Entering a call, and keeping something in it,
leave a sound machine.
-/

namespace Keystroke

open Outcome Keystroke.Action
open Variable (globalLevel)
open Machine (packageName parkedEditorName keptMarks)

namespace Calls.IsSound

variable {calls : Calls} {bound : Nat} (sound : calls.IsSound bound)

include sound

/-- One more call, which keeps nothing yet. -/
theorem push {frame : Frame} (savesNothing : frame.savesStack = false)
    (parksNothing : frame.parksEditor = false) (room : calls.returns.depth < maximalReturns) :
    Calls.IsSound
      { calls with returns := { calls.returns with items := frame :: calls.returns.items } } bound := by
  have below : ∀ name, (name, (calls.returns.items.length + 1 : Int)) ∉
      calls.kept.map Variable.key := by
    intro name member
    obtain ⟨entry, isKept, key⟩ := List.mem_map.mp member
    have atLevel : entry.level = calls.returns.items.length + 1 := congrArg Prod.snd key
    have le : entry.level ≤ calls.returns.items.length := (sound.levels entry isKept).2
    omega
  exact { sound with
    toIsStored := sound.toIsStored.push frame room
    frames := ⟨by simp [savesNothing, parksNothing, below], sound.frames⟩ }

/-- A mark on the top frame that says nothing of what is kept. -/
theorem stopOnReturn : Calls.IsSound
    { calls with returns := calls.returns.modifyTop fun frame => { frame with stops := true } }
    bound := by
  have frames : Calls.Match (calls.kept.map Variable.key)
      (calls.returns.modifyTop fun frame => { frame with stops := true }).items := by
    have matched := sound.frames
    rw [BoundedStack.modifyTop]
    split
    · exact matched
    · next items =>
        rw [items] at matched
        exact matched
  exact { sound with toIsStored := sound.toIsStored.markTop _, frames }

theorem addError {error : Error} (keeps : error.KeepsPackages) :
    Calls.IsSound { calls with errors := calls.errors ++ [error] } bound := by
  refine { sound with errors := fun other member => ?_ }
  rcases List.mem_append.mp member with older | added
  · exact sound.errors other older
  · rwa [List.mem_singleton.mp added]

end Calls.IsSound

namespace Machine

instance : Calls.Law Calls.IsSound where
  names := reservedNames
  permitted := Error.KeepsPackages
  ordinary := Error.IsOrdinary.keepsPackages
  vacant _ _ := True
  vacant_of_not_mem _ := trivial
  same_names := Calls.IsSound.names
  stored := Calls.IsSound.toIsStored
  later sound le := Calls.IsSound.later sound le

/-- A machine whose frames say what its calls keep. -/
abbrev IsSound (machine : Machine) : Prop := machine.Obeys Calls.IsSound

variable {machine : Machine}

/-! ## Keeping something -/

/-- What the present call keeps is noted in its frame. -/
theorem IsSettled.keep {calls : Calls} (settled : machine.IsSettled calls 0)
    (sound : calls.IsSound machine.nextStorage) {frame : Frame} {rest : List Frame}
    (items : machine.returns.items = frame :: rest) {name : List UInt8}
    (reserved : name ∈ reservedNames) {given : Value}
    (keepable : given.IsKeepable calls.taken machine.nextStorage name) {change : Frame → Frame}
    (saves : (change frame).savesStack = true ↔ frame.savesStack = true ∨ name = packageName)
    (parks : (change frame).parksEditor = true ↔
      frame.parksEditor = true ∨ name = parkedEditorName) :
    ∃ hides bindings,
      machine.bindings.storeLocal name (given.numbered machine.nextStorage).1 machine.level
        keptMarks = .ok (hides, bindings) ∧
      ({ machine with
        bindings
        nextStorage := (given.numbered machine.nextStorage).2
        returns := machine.returns.modifyTop change } : Machine).IsSound := by
  obtain ⟨hides, bindings, others, replaced, stored, settledAfter, replaces⟩ :=
    settled.bindings.keep_one (IsSettled.globalLevel_le machine) sound.marked sound.keys
      (sound.names ▸ reserved) (checkName_of_reserved reserved) (given.numbered machine.nextStorage).1
  have depth : machine.returns.depth = calls.returns.depth := congrArg BoundedStack.depth settled.returns
  have level : machine.level = rest.length + 1 := by simp [level, BoundedStack.depth, items]
  have changed : machine.returns.modifyTop change =
      { machine.returns with items := change frame :: rest } := by
    rw [BoundedStack.modifyTop, items]
  have changedDepth : (machine.returns.modifyTop change).depth = machine.returns.depth := by
    simp only [changed, BoundedStack.depth, items, List.length_cons]
  have matched : Calls.Match (calls.kept.map Variable.key) (frame :: rest) := by
    rw [← items, settled.returns]
    exact sound.frames
  have changedMatch : Calls.Match (replaced.map Variable.key) (change frame :: rest) :=
    matched.keep (fun key => level ▸ replaces.mem_keys) saves parks
  have high : machine.level ≤ calls.returns.depth := by rw [← depth, Machine.level]
  refine ⟨hides, bindings, stored,
    { calls with returns := machine.returns.modifyTop change, kept := replaced }, ?_, ?_⟩
  · refine sound.replace _ replaces keepable settled.taken ?_ ?_ (changedDepth.trans depth)
      (by omega) high ?_
    · rw [changed, settled.returns]
    · rw [changed, settled.returns]
    · rw [changed]
      exact changedMatch
  · have free : ∀ number, calls.free machine.nextStorage number →
        Calls.free { calls with returns := machine.returns.modifyTop change, kept := replaced }
          (given.numbered machine.nextStorage).2 number :=
      fun _ => Calls.free_of_replaces _ replaces keepable
    refine settled.transfer ?_ free fun number member => ?_
    · rw [changedDepth]
      exact settledAfter.imp free
    · rcases Calls.mem_taken_of_replaces _ replaces member with isOwn | older
      · exact (keepable.own number isOwn).2
      · exact (settled.taken number older).trans_le keepable.le

theorem leads_keepPackage (sound : machine.IsSound) (inCall : machine.returns.isEmpty = false)
    (package : CallPackage)
    (fit : ∀ calls floor, machine.IsSettled calls floor →
      package.Fits (calls.free machine.nextStorage)) (has : package.HasInputs) :
    (keepPackage package).Upholds Calls.IsSound machine := by
  obtain ⟨calls, sound, settled⟩ := sound
  obtain ⟨frame, rest, items⟩ : ∃ frame rest, machine.returns.items = frame :: rest :=
    List.exists_cons_of_ne_nil (by simpa [BoundedStack.isEmpty] using inCall)
  have keepable := package.isKeepable_pack settled.taken (fit calls 0 settled) has
  let change (frame : Frame) : Frame := { frame with savesStack := true }
  obtain ⟨hides, bindings, stored, soundAfter⟩ := settled.keep sound items
    (by decide) keepable
    (show (change frame).savesStack = true ↔ _ by simp [change])
    (show (change frame).parksEditor = true ↔ _ by simp [change, packageName, parkedEditorName])
  refine leads_adopt (leads_get ?_)
  rw [LeadsIn, on_bind, on_lift]
  simp only [level] at stored ⊢
  rw [stored]
  exact ⟨soundAfter, trivial⟩

theorem leads_parkEditor (sound : machine.IsSound) :
    parkEditor.Upholds Calls.IsSound machine := by
  refine leads_get ?_
  cases edits : machine.editor with
  | none => exact ⟨sound, trivial⟩
  | some editor =>
      let left : Machine := { machine with editor := none }
      have soundLeft : left.IsSound :=
        sound.change (fun calls settled => { settled with editor := by simp }) le_rfl
      refine leads_set (leads_ite (fun _ => ⟨soundLeft, trivial⟩) fun inCall => ?_)
      obtain ⟨frame, rest, items⟩ : ∃ frame rest, left.returns.items = frame :: rest :=
        List.exists_cons_of_ne_nil (by simpa [BoundedStack.isEmpty] using inCall)
      have unreserved : editor.name ∉ reservedNames := by
        obtain ⟨calls, sound, settled⟩ := sound
        exact sound.names ▸ settled.editor editor edits
      obtain ⟨calls, soundCalls, settled⟩ := id soundLeft
      refine leads_lift soundLeft (Editor.isKeepable_pack calls.taken left.nextStorage unreserved)
        fun package keepable => ?_
      let change (frame : Frame) : Frame := { frame with parksEditor := true }
      obtain ⟨hides, bindings, stored, soundAfter⟩ := settled.keep soundCalls items (by decide) keepable
        (show (change frame).savesStack = true ↔ _ by simp [change, packageName, parkedEditorName])
        (show (change frame).parksEditor = true ↔ _ by simp [change])
      have parked : machine.bindings.storeLocal parkedEditorName
          (Value.numbered machine.nextStorage package).1 machine.level keptMarks =
            .ok (hides, bindings) := stored
      refine leads_adopt ?_
      rw [LeadsIn, on_bind, on_lift, parked]
      exact ⟨soundAfter, trivial⟩

end Machine

end Keystroke
