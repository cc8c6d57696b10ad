import Mathlib
import Keystroke.Proofs.Calls.Packages

/-!
# What calls keep

A call keeps its package and a parked editor in lists of its own, which no other value shares, so that they
can be read back. The frames of a machine say which calls keep what.
-/

namespace Keystroke

open Outcome
open Variable (globalLevel)
open Machine (packageName parkedEditorName keptMarks)

namespace Calls

/-- The frames, the top first, say what is kept at their levels. -/
def Match (keys : List (List UInt8 × Int)) : List Frame → Prop
  | [] => True
  | frame :: rest =>
    ((frame.savesStack = true ↔ (packageName, (rest.length + 1 : Int)) ∈ keys) ∧
      (frame.parksEditor = true ↔ (parkedEditorName, (rest.length + 1 : Int)) ∈ keys)) ∧
    Match keys rest

theorem Match.congr {keys others : List (List UInt8 × Int)} {frames : List Frame}
    (same : ∀ name (level : Int), level ≤ frames.length →
      ((name, level) ∈ keys ↔ (name, level) ∈ others))
    (matched : Match keys frames) : Match others frames := by
  induction frames with
  | nil => trivial
  | cons frame rest ih =>
      obtain ⟨⟨saves, parks⟩, matchedRest⟩ := matched
      have here : ((rest.length : Int) + 1) ≤ (frame :: rest).length := by simp
      refine ⟨⟨saves.trans (same _ _ here), parks.trans (same _ _ here)⟩, ih ?_ matchedRest⟩
      intro name level le
      exact same name level (le.trans (by simp))

/-- What is kept in the topmost call is noted in its frame. -/
theorem Match.keep {keys others : List (List UInt8 × Int)} {frame : Frame} {rest : List Frame}
    (matched : Match keys (frame :: rest)) {name : List UInt8}
    (more : ∀ key, key ∈ others ↔ key ∈ keys ∨ key = (name, (rest.length + 1 : Int)))
    {change : Frame → Frame}
    (saves : (change frame).savesStack = true ↔ frame.savesStack = true ∨ name = packageName)
    (parks : (change frame).parksEditor = true ↔
      frame.parksEditor = true ∨ name = parkedEditorName) :
    Match others (change frame :: rest) := by
  obtain ⟨⟨savesHere, parksHere⟩, matchedRest⟩ := matched
  refine ⟨⟨?_, ?_⟩, matchedRest.congr fun other level le => ?_⟩
  · rw [saves, savesHere, more, Prod.mk.injEq, eq_comm (a := name)]
    simp
  · rw [parks, parksHere, more, Prod.mk.injEq, eq_comm (a := name)]
    simp
  · rw [more, Prod.mk.injEq]
    constructor
    · exact .inl
    · rintro (isKey | ⟨-, rfl⟩)
      · exact isKey
      · omega

/-- The topmost frame says no more of a package that is gone. -/
theorem Match.forget {front behind : List Variable} {entry : Variable} {frame : Frame}
    {rest : List Frame}
    (matched : Match ((front ++ entry :: behind).map Variable.key) (frame :: rest))
    (keys : ((front ++ entry :: behind).map Variable.key).Nodup)
    (key : entry.key = (packageName, (rest.length + 1 : Int))) :
    Match ((front ++ behind).map Variable.key) ({ frame with savesStack := false } :: rest) := by
  simp only [List.map_append, List.map_cons, List.nodup_middle, List.nodup_cons] at keys
  have others : ∀ other, other ≠ entry.key →
      (other ∈ (front ++ entry :: behind).map Variable.key ↔
        other ∈ (front ++ behind).map Variable.key) := by
    intro other different
    simp [different]
  obtain ⟨⟨-, parks⟩, matchedRest⟩ := matched
  refine ⟨⟨?_, ?_⟩, matchedRest.congr fun name level le => others _ ?_⟩
  · rw [← key, List.map_append]
    exact iff_of_false Bool.false_ne_true keys.1
  · rw [parks, others]
    rw [key, ne_eq, Prod.mk.injEq, not_and]
    intro same
    exact absurd same (by decide)
  · rw [key, ne_eq, Prod.mk.injEq, not_and]
    intro _ same
    omega

end Calls

/-- What a call keeps under a name: a package, with or without a stack, or an editor. -/
inductive Value.IsKept (free : Nat → Prop) : List UInt8 → Value → Prop
  | mode (storage : Nat) (isBig : Binary64) :
    IsKept free packageName (.list (some storage) [.real isBig])
  | stack (storage inner : Nat) (isBig outputs errorIgnored : Binary64) (inputs : Nat)
    (values : List Value) (lastX : Value) (enough : inputs ≤ values.length) (small : inputs < 2 ^ 53)
    (fit : ∀ value ∈ values, value.Fits free) (fits : lastX.Fits free) :
    IsKept free packageName (.list (some storage)
      [.real isBig, .list (some inner) values, lastX, .real (.ofNat inputs), .real outputs,
        .real errorIgnored])
  | editor (storage inner : Nat) (isEditing level row col : Binary64) (path : List Binary64)
    (name : List UInt8) (unreserved : name ∉ reservedNames) :
    IsKept free parkedEditorName (.list (some storage)
      [.real isEditing, .text name, .real level, .real row, .real col,
        .list (some inner) (path.map .real)])

theorem Value.IsKept.imp {free freer : Nat → Prop} {name : List UInt8} {value : Value}
    (kept : value.IsKept free name) (weaken : ∀ number, free number → freer number) :
    value.IsKept freer name := by
  cases kept with
  | mode => exact .mode ..
  | stack storage inner isBig outputs errorIgnored inputs values lastX enough small fit fits =>
      exact .stack _ _ _ _ _ _ _ _ enough small (fun value member => (fit value member).imp weaken)
        (fits.imp weaken)
  | editor => exact .editor _ _ _ _ _ _ _ _ ‹_›

/-- A package that is kept can be unpacked. -/
theorem Value.IsKept.unpack_package {free : Nat → Prop} {value : Value}
    (kept : value.IsKept free packageName) :
    ∃ package, CallPackage.unpack value = .ok package ∧ package.Fits free ∧ package.HasInputs := by
  generalize named : packageName = name at kept
  cases kept with
  | mode => exact ⟨_, rfl, by simp [CallPackage.Fits], by simp [CallPackage.HasInputs]⟩
  | stack storage inner isBig outputs errorIgnored inputs values lastX enough small fit fits =>
      have read : (Binary64.ofNat inputs).toNatUpTo Editor.indexLimit = inputs :=
        Binary64.toNatUpTo_ofNat small (by rw [Editor.indexLimit]; omega)
      refine ⟨_, rfl, ?_, ?_⟩
      · rintro saved ⟨rfl⟩
        exact ⟨fun value member => fit value (List.mem_reverse.mp member), fits⟩
      · rintro saved ⟨rfl⟩
        simpa [read] using ⟨enough, small⟩
  | editor => exact absurd named (by decide)

/-- An editor that is kept can be unpacked. -/
theorem Value.IsKept.unpack_editor {free : Nat → Prop} {value : Value}
    (kept : value.IsKept free parkedEditorName) :
    ∃ editor, Editor.unpack value = .ok editor ∧ editor.name ∉ reservedNames := by
  generalize named : parkedEditorName = name at kept
  cases kept with
  | mode => exact absurd named (by decide)
  | stack => exact absurd named (by decide)
  | editor storage inner isEditing level row col path name unreserved =>
      have read : (path.map Value.real).mapM Editor.unpackIndex =
          .ok (path.map fun x => x.toNatUpTo Editor.indexLimit) := by
        rw [List.mapM_map]
        exact List.mapM_pure
      refine ⟨⟨!isEditing.equals 0, name, level.toInt32, row.toNatUpTo Editor.indexLimit,
        col.toNatUpTo Editor.indexLimit, path.map fun x => x.toNatUpTo Editor.indexLimit⟩, ?_,
        unreserved⟩
      rw [Editor.unpack, read]
      rfl

/-- A value that a call may keep under a name once its lists have storages, which are its own. -/
structure Value.IsKeepable (taken : List Nat) (next : Nat) (name : List UInt8) (value : Value) :
    Prop where
  le : next ≤ (value.numbered next).2
  own : ∀ number ∈ (value.numbered next).1.ownStorages,
    next ≤ number ∧ number < (value.numbered next).2
  distinct : (value.numbered next).1.ownStorages.Nodup
  kept : (value.numbered next).1.IsKept
    (IsFree ((value.numbered next).1.ownStorages ++ taken) (value.numbered next).2) name

theorem Value.IsKeepable.of_numbered {taken : List Nat} {next later : Nat} {name : List UInt8}
    {value numbered : Value} (eq : value.numbered next = (numbered, later)) (le : next ≤ later)
    (own : ∀ number ∈ numbered.ownStorages, next ≤ number ∧ number < later)
    (distinct : numbered.ownStorages.Nodup)
    (kept : numbered.IsKept (IsFree (numbered.ownStorages ++ taken) later) name) :
    value.IsKeepable taken next name := by
  constructor <;> simpa only [eq]

theorem Value.length_allNumbered (next : Nat) (values : List Value) :
    (Value.allNumbered next values).1.length = values.length := by
  induction values generalizing next with
  | nil => rfl
  | cons value rest ih => simp only [Value.allNumbered, List.length_cons, ih]

/-- A package is kept in two lists if it holds a stack, and in one if it does not. -/
theorem CallPackage.isKeepable_pack {taken : List Nat} {next : Nat}
    (unused : ∀ number ∈ taken, number < next) (package : CallPackage)
    (fit : package.Fits (IsFree taken next)) (has : package.HasInputs) :
    package.pack.IsKeepable taken next packageName := by
  rcases package with ⟨isBig, _ | saved⟩
  · exact .of_numbered rfl (Nat.le_succ _) (by simp [Value.ownStorages]) (List.nodup_singleton _)
      (.mode ..)
  · obtain ⟨fitValues, fitsLastX⟩ := fit saved rfl
    obtain ⟨enough, small⟩ := has saved rfl
    obtain ⟨leInner, fitInner⟩ := Value.allFit_allNumbered unused saved.values.reverse
      (Value.allFit_iff.mpr fun value member => fitValues value (List.mem_reverse.mp member))
    set inner := (Value.allNumbered next saved.values.reverse).2
    have unusedInner : ∀ number ∈ inner :: taken, number < inner + 1 := by
      rintro number (_ | ⟨_, member⟩)
      · exact Nat.lt_succ_self _
      · exact (unused number member).trans (Nat.lt_succ_of_le leInner)
    obtain ⟨leOuter, fitsOuter⟩ := Value.fits_numbered unusedInner saved.lastX
      (fitsLastX.imp fun number isFree =>
        isFree.take (isFree.1.trans_le leInner) (leInner.trans (Nat.le_succ _)))
    set outer := (saved.lastX.numbered (inner + 1)).2
    have packed : (CallPackage.pack ⟨isBig, some saved⟩).numbered next =
        (.list (some outer) [.ofBool isBig,
          .list (some inner) (Value.allNumbered next saved.values.reverse).1,
          (saved.lastX.numbered (inner + 1)).1, .real (.ofNat saved.inputs),
          .real (.ofNat saved.outputs), .ofBool saved.errorIgnored], outer + 1) := by
      simp [CallPackage.pack, Value.numbered, Value.allNumbered, Value.ofBool, inner, outer]
    have sameLength : (Value.allNumbered next saved.values.reverse).1.length = saved.values.length :=
      (Value.length_allNumbered _ _).trans (List.length_reverse ..)
    refine .of_numbered packed (by omega) ?_ ?_
      (.stack _ _ _ _ _ _ _ _ (enough.trans_eq sameLength.symm) small (fun value member => ?_) ?_)
    · simp only [Value.ownStorages, List.mem_cons, List.not_mem_nil, or_false, forall_eq_or_imp,
        forall_eq]
      omega
    · simp only [Value.ownStorages, List.nodup_cons, List.mem_singleton, List.not_mem_nil,
        not_false_eq_true, List.nodup_nil, and_true]
      omega
    · exact (Value.allFit_iff.mp fitInner value member).imp fun number isFree =>
        (isFree.take isFree.1 (Nat.le_refl _)).take (isFree.1.trans leOuter)
          (Nat.le_succ_of_le ((Nat.le_succ _).trans leOuter))
    · exact fitsOuter.imp fun number isFree => isFree.take isFree.1 (Nat.le_succ _)

/-- An editor is kept in two lists. -/
theorem Editor.isKeepable_pack (taken : List Nat) (next : Nat) {editor : Editor}
    (unreserved : editor.name ∉ reservedNames) :
    Ends (Value.IsKeepable taken next parkedEditorName) editor.pack := by
  refine (Machine.ordinary_ofText editor.name).bind fun name isText => ?_
  obtain rfl := isText
  rw [ends_pure]
  have reals : ∀ indices : List Nat,
      Value.allNumbered next (indices.map fun index => .real (.ofNat index)) =
        (indices.map fun index => .real (.ofNat index), next) := by
    intro indices
    exact Value.allNumbered_of_hasStorage (by simp [Value.hasStorage]) next
  have packed : (Value.list none [.ofBool editor.isEditing, .text editor.name,
      .real (.ofInt editor.level), .real (.ofNat editor.row), .real (.ofNat editor.col),
      .list none (editor.path.map fun index => .real (.ofNat index))]).numbered next =
      (.list (some (next + 1)) [.ofBool editor.isEditing, .text editor.name,
        .real (.ofInt editor.level), .real (.ofNat editor.row), .real (.ofNat editor.col),
        .list (some next) (editor.path.map fun index => .real (.ofNat index))], next + 2) := by
    simp [Value.numbered, Value.allNumbered, Value.ofBool, reals]
  refine .of_numbered packed (by omega) ?_ ?_ ?_
  · simp [Value.ownStorages]
  · simp [Value.ownStorages]
  · have path : (editor.path.map .ofNat).map Value.real =
        editor.path.map fun index => .real (.ofNat index) := List.map_map
    rw [← path]
    exact .editor _ _ _ _ _ _ _ _ unreserved

namespace Calls

/-- The calls of a machine: what they keep stands at their levels, has the marks of what is kept, can be
read back, and has storages of its own. -/
structure IsStored (calls : Calls) (bound : Nat) : Prop where
  limit : calls.returns.limit = maximalReturns
  overflow : calls.returns.overflow = .returnStackFull
  depth : calls.returns.depth ≤ maximalReturns
  marked : Variables.IsSettled.Marked calls.kept
  levels : ∀ entry ∈ calls.kept, 1 ≤ entry.level ∧ entry.level ≤ calls.returns.depth
  keys : (calls.kept.map Variable.key).Nodup
  values : ∀ entry ∈ calls.kept, entry.value.IsKept (calls.free bound) entry.name
  taken : calls.taken.Nodup

/-- Calls that keep nothing. -/
theorem isStored_nil {calls : Calls} (nothing : calls.kept = [])
    (limit : calls.returns.limit = maximalReturns) (overflow : calls.returns.overflow = .returnStackFull)
    (depth : calls.returns.depth ≤ maximalReturns) (bound : Nat) : calls.IsStored bound where
  limit := limit
  overflow := overflow
  depth := depth
  marked := by simp [Variables.IsSettled.Marked, nothing]
  levels := by simp [nothing]
  keys := by simp [nothing]
  values := by simp [nothing]
  taken := by simp [taken, nothing]

/-- Calls whose frames say what they keep. Neither what is solved for nor what is integrated over has a
name under which they keep something, and no package was lost. -/
structure IsSound (calls : Calls) (bound : Nat) : Prop extends calls.IsStored bound where
  frames : Match (calls.kept.map Variable.key) calls.returns.items
  names : calls.names = reservedNames
  solver : calls.solver.variableName ∉ reservedNames
  integrator : calls.integrator.variableName ∉ reservedNames
  errors : ∀ error ∈ calls.errors, error.KeepsPackages

variable {calls : Calls} {bound : Nat}

theorem IsStored.later (stored : calls.IsStored bound) {later : Nat} (le : bound ≤ later) :
    calls.IsStored later :=
  { stored with
    values := fun entry member => (stored.values entry member).imp (calls.free_mono le) }

theorem IsSound.later (sound : calls.IsSound bound) {later : Nat} (le : bound ≤ later) :
    calls.IsSound later :=
  { sound with toIsStored := sound.toIsStored.later le }

/-- One more call, which keeps nothing yet. -/
theorem IsStored.push (stored : calls.IsStored bound) (frame : Frame)
    (room : calls.returns.depth < maximalReturns) :
    Calls.IsStored
      { calls with returns := { calls.returns with items := frame :: calls.returns.items } } bound :=
  { stored with
    depth := room
    levels := fun entry member => by
      obtain ⟨low, high⟩ := stored.levels entry member
      simp only [BoundedStack.depth, List.length_cons] at high ⊢
      omega }

/-- A mark on the topmost frame. -/
theorem IsStored.markTop (stored : calls.IsStored bound) (change : Frame → Frame) :
    Calls.IsStored { calls with returns := calls.returns.modifyTop change } bound := by
  have same : (calls.returns.modifyTop change).limit = calls.returns.limit ∧
      (calls.returns.modifyTop change).overflow = calls.returns.overflow := by
    rw [BoundedStack.modifyTop]
    split <;> exact ⟨rfl, rfl⟩
  have depth := Machine.depth_modifyTop calls.returns change
  exact { stored with
    limit := same.1.trans stored.limit
    overflow := same.2.trans stored.overflow
    depth := depth ▸ stored.depth
    levels := depth ▸ stored.levels }

theorem IsStored.unique (stored : calls.IsStored bound) :
    ∀ first ∈ calls.kept, ∀ second ∈ calls.kept,
      first.name = second.name → first.level = second.level → first = second := by
  intro first firstKept second secondKept sameName sameLevel
  exact List.inj_on_of_nodup_map stored.keys firstKept secondKept (Prod.ext sameName sameLevel)

/-- Calls that keep less leave free what was free. -/
theorem free_of_sublist (returns : Returns) {kept : List Variable}
    (sublist : List.Sublist kept calls.kept) {number : Nat} (isFree : calls.free bound number) :
    Calls.free { calls with returns, kept } bound number :=
  ⟨isFree.1, fun member => isFree.2 ((sublist.flatMap _).subset member)⟩

/-- Calls that keep less, as their frames say. -/
theorem IsSound.of_sublist (sound : calls.IsSound bound) {returns : Returns} {kept : List Variable}
    (sublist : List.Sublist kept calls.kept) (limit : returns.limit = calls.returns.limit)
    (overflow : returns.overflow = calls.returns.overflow)
    (depth : returns.depth ≤ calls.returns.depth)
    (levels : ∀ entry ∈ kept, entry.level ≤ returns.depth)
    (frames : Match (kept.map Variable.key) returns.items) :
    Calls.IsSound { calls with returns, kept } bound where
  limit := limit.trans sound.limit
  overflow := overflow.trans sound.overflow
  depth := depth.trans sound.depth
  marked entry member := sound.marked entry (sublist.subset member)
  levels entry member := ⟨(sound.levels entry (sublist.subset member)).1, levels entry member⟩
  keys := sound.keys.sublist (sublist.map _)
  values entry member :=
    (sound.values entry (sublist.subset member)).imp fun _ => free_of_sublist _ sublist
  taken := sound.taken.sublist (sublist.flatMap _)
  frames := frames
  names := sound.names
  solver := sound.solver
  integrator := sound.integrator
  errors := sound.errors

section

open Variables.IsSettled (Replaces)

variable {others replaced : List Variable} {name : List UInt8} {level : Int} {given : Value}
  (returns : Returns)
  (replaces : Replaces ⟨name, level, keptMarks, (given.numbered bound).1⟩ calls.kept others replaced)

include replaces

theorem mem_taken_of_replaces {number : Nat}
    (taken : number ∈ Calls.taken { calls with returns, kept := replaced }) :
    number ∈ (given.numbered bound).1.ownStorages ∨ number ∈ calls.taken :=
  (List.mem_append.mp ((replaces.perm.flatMap_right _).subset taken)).imp_right fun older =>
    (replaces.sublist.flatMap _).subset older

variable (keepable : given.IsKeepable calls.taken bound name)

include keepable

/-- What is kept in new storages leaves free what was free. -/
theorem free_of_replaces {number : Nat} (isFree : calls.free bound number) :
    Calls.free { calls with returns, kept := replaced } (given.numbered bound).2 number := by
  refine ⟨isFree.1.trans_le keepable.le, fun taken => ?_⟩
  rcases mem_taken_of_replaces returns replaces taken with isOwn | older
  · exact isFree.1.not_ge (keepable.own number isOwn).1
  · exact isFree.2 older

/-- Calls that keep one thing more, in new storages and as their frames say. -/
theorem IsSound.replace (sound : calls.IsSound bound) (unused : ∀ number ∈ calls.taken, number < bound)
    (limit : returns.limit = calls.returns.limit) (overflow : returns.overflow = calls.returns.overflow)
    (depth : returns.depth = calls.returns.depth) (low : 1 ≤ level) (high : level ≤ calls.returns.depth)
    (frames : Match (replaced.map Variable.key) returns.items) :
    Calls.IsSound { calls with returns, kept := replaced } (given.numbered bound).2 where
  limit := limit.trans sound.limit
  overflow := overflow.trans sound.overflow
  depth := depth.trans_le sound.depth
  marked entry member := by
    rcases replaces.eq_or_mem member with rfl | older
    · rfl
    · exact sound.marked entry older
  levels entry member := by
    rw [depth]
    rcases replaces.eq_or_mem member with rfl | older
    · exact ⟨low, high⟩
    · exact sound.levels entry older
  keys := replaces.nodup_keys sound.keys
  values entry member := by
    rcases replaces.eq_or_mem member with rfl | older
    · refine keepable.kept.imp fun number isFree => ⟨isFree.1, fun taken => isFree.2 ?_⟩
      exact List.mem_append.mpr (mem_taken_of_replaces returns replaces taken)
    · exact (sound.values entry older).imp fun _ => free_of_replaces returns replaces keepable
  taken := by
    have takenOthers := replaces.sublist.flatMap fun entry => entry.value.ownStorages
    refine (replaces.perm.flatMap_right _).nodup_iff.mpr (List.nodup_append.mpr
      ⟨keepable.distinct, sound.taken.sublist takenOthers, fun number isOwn other isOlder same => ?_⟩)
    have low := (keepable.own number isOwn).1
    have high := unused other (takenOthers.subset isOlder)
    omega
  frames := frames
  names := sound.names
  solver := sound.solver
  integrator := sound.integrator
  errors := sound.errors

end

end Calls

end Keystroke
