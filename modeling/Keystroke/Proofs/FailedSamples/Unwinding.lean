import Mathlib
import Keystroke.Proofs.Calls.Leaving

/-!
# The way down to the solver

An error in a solved function leaves the calls down to the latest one of the solver. The calls below it
and their variables stay as they are; stack and last X come back as far as the calls that are left keep
them, the innermost call first.
-/

namespace Keystroke

open Keystroke.Action
open Variable (globalLevel)
open Machine (packageName)

/-! ## Variables without their marks -/

namespace Variables

/-- The variables of a table, whichever of them hide others or are hidden. -/
def contents (table : Variables) : List Variable :=
  table.entries.map fun entry => { entry with marks := 0 }

theorem contents_modify (table : Variables) (index : Nat) (marks : UInt8 → UInt8) :
    (table.modify index fun entry => { entry with marks := marks entry.marks }).contents =
      table.contents := by
  apply List.ext_getElem?
  intro place
  simp only [contents, modify, List.getElem?_map, List.getElem?_modify]
  cases table.entries[place]? with
  | none => rfl
  | some entry =>
      simp only [Option.map_some]
      split <;> rfl

theorem contents_removeAt (table : Variables) (index : Nat) :
    (table.removeAt index).contents = table.contents.eraseIdx index := by
  have rest : contents ⟨table.entries.eraseIdx index⟩ = table.contents.eraseIdx index :=
    (List.eraseIdx_map ..).symm
  rw [removeAt]
  split
  · next none =>
      rw [contents, List.eraseIdx_of_length_le]
      rw [List.length_map]
      exact List.getElem?_eq_none_iff.mp none
  · dsimp only
    split
    · split
      · exact (contents_modify _ _ fun marks => marks &&& ~~~Variable.hiddenMark).trans rest
      · exact rest
    · exact rest

/-- What is purged of a table is one variable that the name means at the level. -/
theorem contents_of_purge {table after : Variables} {name : List UInt8} {level : Int} {entry : Variable}
    (purged : table.purge name level = some (entry, after)) :
    ∃ front behind, table.entries = front ++ entry :: behind ∧
      after.contents = contents ⟨front ++ behind⟩ ∧ entry.name = name ∧
        (entry.level = globalLevel ∨ entry.level = level) := by
  obtain ⟨index, looked, purged⟩ := Option.bind_eq_some_iff.mp purged
  obtain ⟨found, got, purged⟩ := Option.bind_eq_some_iff.mp purged
  split at purged
  · next here =>
      cases purged
      obtain ⟨front, item, behind, entries, rfl, isNamed, -⟩ := exists_split_of_lastIndex? looked
      obtain rfl : item = entry := by simpa [get?, entries] using got
      refine ⟨front, behind, entries, ?_, ?_, ?_⟩
      · rw [contents_removeAt, contents, entries]
        simp [contents, List.eraseIdx_append_of_length_le]
      · simpa using (Bool.and_eq_true_iff.mp isNamed).1
      · simpa [Variable.isGlobal] using here
  · cases purged

theorem contents_purgeFromLevel_go {level : Int} (isLocal : globalLevel < level) {fuel : Nat}
    {table : Variables}
    (ordered : table.contents.Pairwise fun older newer => older.level ≤ newer.level)
    (enough : table.entries.length ≤ fuel) (count : Nat) :
    (purgeFromLevel.go level fuel count table).2.contents =
      table.contents.filter fun entry => entry.level < level := by
  induction fuel generalizing table count with
  | zero =>
      have empty : table.entries = [] := List.eq_nil_of_length_eq_zero (Nat.le_zero.mp enough)
      simp [purgeFromLevel.go, contents, empty]
  | succ fuel ih =>
      rw [purgeFromLevel.go]
      rcases List.eq_nil_or_concat table.entries with empty | ⟨init, last, entries⟩
      · simp [contents, empty]
      rw [List.concat_eq_append] at entries
      obtain rfl : table = ⟨init ++ [last]⟩ := congrArg Variables.mk entries
      have parts : contents ⟨init ++ [last]⟩ = contents ⟨init⟩ ++ [{ last with marks := 0 }] :=
        List.map_append
      simp only [List.getLast?_append_cons, List.getLast?_singleton]
      split
      · next stops =>
          have lastBelow : last.level < level := by
            simp only [Variable.isGlobal, Bool.or_eq_true, decide_eq_true_eq, beq_iff_eq] at stops
            omega
          symm
          rw [List.filter_eq_self]
          intro entry member
          rw [parts, List.pairwise_append] at ordered
          rw [parts, List.mem_append, List.mem_singleton] at member
          rw [decide_eq_true_eq]
          rcases member with older | rfl
          · exact (ordered.2.2 entry older _ List.mem_cons_self).trans_lt lastBelow
          · exact lastBelow
      · next goes =>
          have atLevel : ¬ last.level < level := by
            simp only [Bool.or_eq_true, decide_eq_true_eq, not_or] at goes
            exact goes.1
          have removed : ((⟨init ++ [last]⟩ : Variables).removeAt
              ((init ++ [last]).length - 1)).contents = contents ⟨init⟩ := by
            rw [contents_removeAt, parts]
            simp [contents, List.eraseIdx_append_of_length_le]
          have shorter : ((⟨init ++ [last]⟩ : Variables).removeAt
              ((init ++ [last]).length - 1)).entries.length ≤ fuel := by
            rw [length_removeAt _ (by simp)]
            simpa using enough
          rw [ih (removed ▸ (List.pairwise_append.mp (parts ▸ ordered)).1) shorter, removed, parts]
          simp [atLevel]

/-- Purging a level takes away what belongs to it and to deeper ones, and nothing else. -/
theorem contents_purgeFromLevel {level : Int} (isLocal : globalLevel < level) {table : Variables}
    (ordered : table.contents.Pairwise fun older newer => older.level ≤ newer.level) :
    (table.purgeFromLevel level).2.contents = table.contents.filter fun entry => entry.level < level :=
  contents_purgeFromLevel_go isLocal ordered le_rfl 0

end Variables

/-! ## What calls keep -/

/-- Stack and last X of a caller, as far as a package tells. -/
def CallPackage.giveBack (package : CallPackage) : Stack × Value → Stack × Value
  | (stack, lastX) =>
    match package.saved with
    | none => (stack.setBig package.isBig, lastX)
    | some saved => (.ofValues package.isBig saved.values, saved.lastX)

namespace Machine

variable {machine left : Machine}

/-- The package that is kept for the call at a level. -/
def packageAt? (machine : Machine) (level : Int) : Option CallPackage := do
  let entry ← machine.bindings.contents.find? fun entry =>
    entry.name == packageName && entry.level == level
  (CallPackage.unpack entry.value).toOption

/-- Stack and last X when so many of the latest calls are left because of an error, the innermost first. -/
def givenBack (machine : Machine) : Nat → Stack × Value
  | 0 => (machine.stack, machine.lastX)
  | count + 1 =>
    match machine.packageAt? (machine.level - count) with
    | none => machine.givenBack count
    | some package => package.giveBack (machine.givenBack count)

theorem level_sub {distance : Nat} (le : distance ≤ machine.returns.depth) :
    machine.level - distance = (machine.returns.depth - distance : Nat) := by
  rw [Machine.level]
  omega

/-- Packages that are further out do not matter if there are none. -/
theorem givenBack_add {count more : Nat}
    (none : ∀ further, count ≤ further → further < count + more →
      machine.packageAt? (machine.level - further) = none) :
    machine.givenBack (count + more) = machine.givenBack count := by
  induction more with
  | zero => rfl
  | succ more ih =>
      rw [← add_assoc, givenBack, none _ (by omega) (by omega)]
      exact ih fun further le lt => none further le (by omega)

/-- A machine that is left when so many of the latest calls of another one were left because of an error. -/
structure Leaves (machine : Machine) (count : Nat) (left : Machine) : Prop where
  returns : left.returns = { machine.returns with items := machine.returns.items.drop count }
  contents : left.bindings.contents =
    machine.bindings.contents.filter fun entry => entry.level + count ≤ machine.level
  values : (left.stack, left.lastX) = machine.givenBack count
  others : left = { machine with
    returns := left.returns
    bindings := left.bindings
    stack := left.stack
    lastX := left.lastX
    flags := left.flags
    editor := left.editor }

namespace Leaves

variable {between : Machine} {count more : Nat}

theorem level (leaves : machine.Leaves count left) (enough : count ≤ machine.returns.depth) :
    left.level = machine.level - count := by
  have depth : left.returns.depth = machine.returns.depth - count := by
    rw [leaves.returns, BoundedStack.depth, List.length_drop]
    rfl
  rw [Machine.level, Machine.level, depth]
  omega

/-- No variable of a call that was left remains. -/
theorem level_add_le (leaves : machine.Leaves count left) {entry : Variable}
    (member : entry ∈ left.bindings.entries) : entry.level + count ≤ machine.level := by
  have content : ({ entry with marks := 0 } : Variable) ∈ left.bindings.contents :=
    List.mem_map_of_mem member
  rw [leaves.contents, List.mem_filter] at content
  exact of_decide_eq_true content.2

theorem packageAt? (leaves : machine.Leaves count left) {level : Int} (le : level + count ≤ machine.level) :
    left.packageAt? level = machine.packageAt? level := by
  rw [Machine.packageAt?, Machine.packageAt?, leaves.contents, List.find?_filter]
  congr 1
  congr 1
  funext entry
  rw [← Bool.coe_iff_coe, decide_eq_true_eq, decide_eq_true_eq, Bool.and_eq_true, beq_iff_eq, beq_iff_eq]
  constructor
  · exact And.right
  · intro here
    exact ⟨here.2 ▸ le, here⟩

theorem givenBack (leaves : machine.Leaves count between) (enough : count ≤ machine.returns.depth)
    (more : Nat) : between.givenBack more = machine.givenBack (count + more) := by
  induction more with
  | zero => exact leaves.values
  | succ more ih =>
      have sameLevel : between.level - more = machine.level - (count + more : Nat) := by
        rw [leaves.level enough]
        omega
      rw [← add_assoc, Machine.givenBack, Machine.givenBack, ih, sameLevel, leaves.packageAt? (by omega)]

theorem trans (leaves : machine.Leaves count between) (enough : count ≤ machine.returns.depth)
    (leavesMore : between.Leaves more left) : machine.Leaves (count + more) left where
  returns := by
    rw [leavesMore.returns, leaves.returns, List.drop_drop]
  contents := by
    rw [leavesMore.contents, leaves.contents, List.filter_filter, leaves.level enough]
    congr 1
    funext entry
    rw [← Bool.coe_iff_coe, Bool.and_eq_true, decide_eq_true_eq, decide_eq_true_eq, decide_eq_true_eq]
    omega
  values := leavesMore.values.trans (leaves.givenBack enough more)
  others := by
    rw [leavesMore.others, leaves.others]

/-- Of the packages the outermost is what counts, if there is a stack in it. -/
theorem values_of_saved (leaves : machine.Leaves count left) (enough : count ≤ machine.returns.depth)
    {level : Nat} (isLeft : machine.returns.depth < level + count) (within : level ≤ machine.returns.depth)
    {isBig : Bool} {saved : SavedStack} (kept : machine.packageAt? level = some ⟨isBig, some saved⟩)
    (none : ∀ further : Nat, machine.returns.depth < further + count → further < level →
      machine.packageAt? further = none) :
    left.stack = .ofValues isBig saved.values ∧ left.lastX = saved.lastX := by
  obtain ⟨inner, depth⟩ := Nat.exists_eq_add_of_le within
  obtain ⟨more, rfl⟩ : ∃ more, count = inner + 1 + more := Nat.exists_eq_add_of_le (by omega)
  have further (distance : Nat) (le : inner + 1 ≤ distance) (lt : distance < inner + 1 + more) :
      machine.packageAt? (machine.level - distance) = Option.none := by
    rw [level_sub (by omega)]
    exact none _ (by omega) (by omega)
  have atLevel : machine.level - inner = level := by
    rw [level_sub (by omega), depth, Nat.add_sub_cancel]
  have values := leaves.values
  rw [givenBack_add further, Machine.givenBack, atLevel, kept] at values
  exact Prod.mk.inj values

/-- Without packages, stack and last X are as they were. -/
theorem values_of_unsaved (leaves : machine.Leaves count left) (enough : count ≤ machine.returns.depth)
    (none : ∀ level : Nat, machine.returns.depth < level + count → level ≤ machine.returns.depth →
      machine.packageAt? level = none) :
    left.stack = machine.stack ∧ left.lastX = machine.lastX := by
  have all (distance : Nat) (_ : 0 ≤ distance) (lt : distance < 0 + count) :
      machine.packageAt? (machine.level - distance) = Option.none := by
    rw [level_sub (by omega)]
    exact none _ (by omega) (by omega)
  have values := leaves.values
  rw [← Nat.zero_add count, givenBack_add all] at values
  exact Prod.mk.inj values

end Leaves

/-! ## Leaving a call -/

/-- A return changes the editor, the frames, the variables and the flags. -/
theorem exists_afterReturn_eq (machine : Machine) (frame : Frame) (rest : List Frame)
    (editor : Option Editor) : ∃ checked flags, machine.afterReturn frame rest editor = { machine with
      returns := { machine.returns with items := rest }
      bindings := (machine.bindings.purgeFromLevel machine.level).2
      editor := checked
      flags } := by
  obtain ⟨checked, same, -⟩ := exists_checkEditor
    (({ machine with editor, returns := { machine.returns with items := rest } } :
      Machine).purgeLevel machine.level)
  refine ⟨checked, machine.flags.set Flags.liftDisabled frame.liftDisabled, ?_⟩
  rw [afterReturn, same]
  rfl

/-- Levels never decrease along the table of a machine that obeys a law. -/
theorem Obeys.ordered_contents {law : Calls → Nat → Prop} (obeys : machine.Obeys law) :
    machine.bindings.contents.Pairwise fun older newer => older.level ≤ newer.level := by
  obtain ⟨calls, -, settled⟩ := obeys
  rw [Variables.contents, List.pairwise_map]
  exact settled.bindings.ordered

section

variable {calls : Calls} (sound : calls.IsSound machine.nextStorage) (settled : machine.IsSettled calls 0)

include sound settled

theorem packageAt?_eq_none {level : Int} (nothing : (packageName, level) ∉ calls.kept.map Variable.key) :
    machine.packageAt? level = none := by
  have none : machine.bindings.contents.find? (fun entry =>
      entry.name == packageName && entry.level == level) = none := by
    rw [List.find?_eq_none]
    intro entry member
    obtain ⟨original, isEntry, rfl⟩ := List.mem_map.mp member
    simp only [Bool.and_eq_true, beq_iff_eq, not_and]
    intro named atLevel
    have isKept := (settled.mem_kept sound).mpr ⟨isEntry, by rw [named]; decide⟩
    exact nothing (List.mem_map.mpr ⟨original, isKept, Prod.ext named atLevel⟩)
  simp [packageAt?, none]

theorem packageAt?_eq_some {entry : Variable} (member : entry ∈ calls.kept)
    (named : entry.name = packageName) {package : CallPackage}
    (unpacked : CallPackage.unpack entry.value = .ok package) :
    machine.packageAt? entry.level = some package := by
  have found : machine.bindings.contents.find? (fun other =>
      other.name == packageName && other.level == entry.level) = some { entry with marks := 0 } := by
    have isEntry := ((settled.mem_kept sound).mp member).1
    cases search : machine.bindings.contents.find? (fun other =>
        other.name == packageName && other.level == entry.level) with
    | none =>
        have other := List.find?_eq_none.mp search _ (List.mem_map_of_mem isEntry)
        simp [named] at other
    | some content =>
        obtain ⟨original, isOriginal, rfl⟩ := List.mem_map.mp (List.mem_of_find?_eq_some search)
        have key := List.find?_some search
        simp only [Bool.and_eq_true, beq_iff_eq] at key
        have isKept := (settled.mem_kept sound).mpr ⟨isOriginal, by rw [key.1]; decide⟩
        rw [sound.unique original isKept entry member (key.1.trans named.symm) key.2]
  simp [packageAt?, found, unpacked, Except.toOption]

end

theorem on_takePackage_eq_ok {level : Int} {package : CallPackage}
    (took : (takePackage level).on machine = (.ok package, left)) :
    ∃ entry bindings, machine.bindings.purge packageName level = some (entry, bindings) ∧
      CallPackage.unpack entry.value = .ok package ∧ left = { machine with bindings } := by
  simp only [takePackage, on_bind, on_get] at took
  split at took
  · cases took
  · next entry bindings purged =>
      simp only [on_bind, on_set, on_lift, Prod.mk.injEq] at took
      exact ⟨entry, bindings, purged, took.1, took.2.symm⟩

/-- A package that is taken because of an error is given back. -/
theorem IsSound.exists_on_discardFunction (sound : machine.IsSound)
    (saves : machine.callSavesStack = true) :
    ∃ bindings stack lastX flags,
      discardFunction.on machine = (.ok (), { machine with bindings, stack, lastX, flags }) ∧
      ({ machine with bindings, stack, lastX, flags } : Machine).IsLeavable ∧
      bindings.contents.filter (fun entry => entry.level < machine.level) =
        machine.bindings.contents.filter (fun entry => entry.level < machine.level) ∧
      (stack, lastX) = machine.givenBack 1 := by
  obtain ⟨left, discarded, leavable, -⟩ := sound.finishes takesPackage_discardFunction saves
  obtain ⟨package, bindings, -, took, -⟩ := sound.exists_package saves
  obtain ⟨calls, soundCalls, settled⟩ := sound
  obtain ⟨entry, bindings, purged, unpacked, same⟩ := on_takePackage_eq_ok took
  obtain ⟨front, behind, entries, contents, named, atLevel⟩ := Variables.contents_of_purge purged
  have member : entry ∈ calls.kept := by
    refine (settled.mem_kept soundCalls).mpr ⟨by simp [entries], ?_⟩
    rw [named]
    decide
  have isLocal : entry.level = machine.level := by
    have low := (soundCalls.levels entry member).1
    rcases atLevel with isGlobal | isLocal
    · rw [isGlobal, globalLevel] at low
      omega
    · exact isLocal
  have found := packageAt?_eq_some soundCalls settled member named unpacked
  have gives : machine.givenBack 1 = package.giveBack (machine.stack, machine.lastX) := by
    simp [givenBack, ← isLocal, found]
  have others : bindings.contents.filter (fun entry => entry.level < machine.level) =
      machine.bindings.contents.filter (fun entry => entry.level < machine.level) := by
    rw [contents, Variables.contents, Variables.contents, entries]
    simp [isLocal]
  rw [gives]
  have isLeft : ∃ stack lastX flags, left = { machine with bindings, stack, lastX, flags } ∧
      (stack, lastX) = package.giveBack (machine.stack, machine.lastX) := by
    rw [same] at took
    simp only [discardFunction, on_bind, on_get, took] at discarded
    rcases package with ⟨isBig, _ | saved⟩
    · cases discarded
      exact ⟨_, _, _, rfl, rfl⟩
    · cases discarded
      exact ⟨_, _, _, rfl, rfl⟩
  obtain ⟨stack, lastX, flags, rfl, given⟩ := isLeft
  exact ⟨bindings, stack, lastX, flags, discarded, leavable, others, given⟩

/-- Where nothing is kept for the latest call, nothing comes back. -/
theorem IsSound.givenBack_one (sound : machine.IsSound) (plain : machine.callSavesStack = false)
    {frame : Frame} {rest : List Frame} (items : machine.returns.items = frame :: rest) :
    machine.givenBack 1 = (machine.stack, machine.lastX) := by
  obtain ⟨calls, sound, settled⟩ := sound
  have level : machine.level = rest.length + 1 := by simp [Machine.level, BoundedStack.depth, items]
  have matched := sound.frames
  rw [← settled.returns, items] at matched
  have savesNothing : ¬ frame.savesStack = true := by
    simpa [callSavesStack, BoundedStack.top?, items] using plain
  have nothing := mt matched.1.1.mpr savesNothing
  rw [← level] at nothing
  simp [givenBack, packageAt?_eq_none sound settled nothing]

/-- One call is left. -/
theorem IsSound.exists_on_leave {α : Type} (sound : machine.IsSound) {frame : Frame} {rest : List Frame}
    (items : machine.returns.items = frame :: rest) (next : Option Frame → Action α) :
    ∃ left, (if machine.callSavesStack then discardFunction >>= fun _ => popReturn >>= next
        else popReturn >>= next).on machine = (next (some frame)).on left ∧
      left.IsSound ∧ machine.Leaves 1 left := by
  obtain ⟨bindings, stack, lastX, flags, finished, leavable, others, given⟩ :
      ∃ bindings stack lastX flags,
        (if machine.callSavesStack then discardFunction >>= fun _ => popReturn >>= next
          else popReturn >>= next).on machine =
            (popReturn >>= next).on { machine with bindings, stack, lastX, flags } ∧
        ({ machine with bindings, stack, lastX, flags } : Machine).IsLeavable ∧
        bindings.contents.filter (fun entry => entry.level < machine.level) =
          machine.bindings.contents.filter (fun entry => entry.level < machine.level) ∧
        (stack, lastX) = machine.givenBack 1 := by
    cases saves : machine.callSavesStack with
    | true =>
        obtain ⟨bindings, stack, lastX, flags, discarded, gone⟩ := sound.exists_on_discardFunction saves
        exact ⟨bindings, stack, lastX, flags, on_bind_ok discarded _, gone⟩
    | false =>
        exact ⟨machine.bindings, machine.stack, machine.lastX, machine.flags, rfl, sound.isLeavable saves,
          rfl, (sound.givenBack_one saves items).symm⟩
  obtain ⟨editor, popped, soundLeft⟩ := leavable.exists_on_popReturn items
  refine ⟨_, finished.trans (on_bind_ok popped next), soundLeft, ?_⟩
  have level : machine.level = rest.length + 1 := by simp [Machine.level, BoundedStack.depth, items]
  have isLocal : globalLevel < machine.level := by
    rw [level, globalLevel]
    omega
  have ordered : bindings.contents.Pairwise fun older newer => older.level ≤ newer.level :=
    leavable.ordered_contents
  have purged := Variables.contents_purgeFromLevel isLocal ordered
  obtain ⟨checked, flags, same⟩ := exists_afterReturn_eq
    ({ machine with bindings, stack, lastX, flags } : Machine) frame rest editor
  rw [same]
  refine ⟨?_, ?_, given, rfl⟩
  · rw [items]
    rfl
  · refine purged.trans (others.trans ?_)
    congr 1

/-! ## The way down -/

theorem IsSound.exists_on_unwindToSolver_succ (sound : machine.IsSound) {top : Frame} {rest : List Frame}
    (items : machine.returns.items = top :: rest) (fuel : Nat) :
    ∃ left, (unwindToSolver (fuel + 1)).on machine =
        Action.on (if top.caller = .solver then return top.stops
          else return (← unwindToSolver fuel) || top.stops) left ∧
      left.IsSound ∧ machine.Leaves 1 left := by
  rw [unwindToSolver]
  exact sound.exists_on_leave items _

/-- The calls down to the latest one of the solver are left, and no others. -/
theorem IsSound.exists_on_unwindToSolver (sound : machine.IsSound) {above below : List Frame}
    {frame : Frame} (items : machine.returns.items = above ++ frame :: below)
    (isSolver : frame.caller = .solver) (others : ∀ other ∈ above, other.caller ≠ .solver) {fuel : Nat}
    (enough : above.length < fuel) :
    ∃ left, (unwindToSolver fuel).on machine = (.ok ((above ++ [frame]).any Frame.stops), left) ∧
      left.IsSound ∧ machine.Leaves (above.length + 1) left := by
  induction above generalizing machine fuel with
  | nil =>
      obtain ⟨fuel, rfl⟩ := Nat.exists_eq_add_one.mpr enough
      obtain ⟨left, unwinds, soundLeft, leaves⟩ := sound.exists_on_unwindToSolver_succ items fuel
      refine ⟨left, ?_, soundLeft, leaves⟩
      rw [unwinds, if_pos isSolver]
      simp
  | cons top above ih =>
      obtain ⟨fuel, rfl⟩ := Nat.exists_eq_add_one.mpr (Nat.zero_lt_of_lt enough)
      obtain ⟨between, unwinds, soundBetween, leaves⟩ := sound.exists_on_unwindToSolver_succ items fuel
      have itemsBetween : between.returns.items = above ++ frame :: below := by
        rw [leaves.returns, items]
        rfl
      obtain ⟨left, goesOn, soundLeft, leavesMore⟩ := ih soundBetween itemsBetween
        (fun other member => others other (List.mem_cons_of_mem _ member))
        (Nat.lt_of_succ_lt_succ enough)
      have inCall : 1 ≤ machine.returns.depth := by
        rw [BoundedStack.depth, items]
        exact Nat.succ_le_succ (Nat.zero_le _)
      refine ⟨left, ?_, soundLeft, ?_⟩
      · rw [unwinds, if_neg (others top List.mem_cons_self), on_bind_ok goesOn]
        simp [Bool.or_comm]
      · rw [List.length_cons, Nat.add_comm]
        exact leaves.trans inCall leavesMore

end Machine

end Keystroke
