import Mathlib
import Keystroke.Proofs.Bindings.Hiding
import Keystroke.Proofs.Calls.Discipline
import Keystroke.Proofs.Inputs

/-!
# Forgetting all calls

When a machine forgets its calls, its globals are all that is left of its variables, in view and otherwise as
they were. The stack has the mode that the lowest call with a package found, and the top of it is not lost.
-/

namespace Keystroke

open Keystroke.Action
open Machine (packageName)
open Variable (hiddenMark)

/-! ## Machines that can be reached -/

namespace StateFile

variable {version : Nat} {calls : Calls} {machine result : Machine}

/-- What comes back of a machine has a table that it could have made. -/
theorem IsRestored.hasMadeTable (restored : IsRestored calls.names version machine result)
    (made : machine.HasMadeTable) : result.HasMadeTable := by
  obtain ⟨own, registers⟩ := restored.registers
  have table := registers.table
  rw [heldVariables] at table
  cases levels : holdsLevels version with
  | true =>
      rw [levels, if_pos rfl] at table
      have same : List.Forall₂ (· = ·) (result.bindings.entries.map Variable.heading)
          (machine.bindings.entries.map Variable.heading) := by
        rw [List.forall₂_map_left_iff, List.forall₂_map_right_iff]
        refine table.flip.imp fun read entry comesBack => ?_
        rw [Variable.heading, comesBack.name, comesBack.level, comesBack.marks, Variable.inLayout, levels]
        rfl
      rw [List.forall₂_eq_eq_eq] at same
      exact made.reread same
  | false =>
      refine .flattened fun read member => ?_
      obtain ⟨entry, -, comesBack⟩ := exists_of_forall₂ table member
      rw [comesBack.level, comesBack.marks, Variable.inLayout, levels]
      exact ⟨rfl, rfl⟩

end StateFile

namespace Machine

variable {machine other : Machine}

theorem HasMadeTable.after (made : machine.HasMadeTable) (input : Input) : (machine.after input).HasMadeTable := by
  by_cases silent : input = .interrupt
  · rw [silent, Machine.after, interrupt]
    split
    · exact made
    · exact made
  · exact (evolves_after machine silent).hasMadeTable made

theorem HasMadeTable.reloadedBy (made : machine.HasMadeTable) (sound : machine.IsSound)
    (otherMade : other.HasMadeTable) (version : Nat) (platform : String) (generator : Generator) :
    (machine.reloadedBy version platform generator other).HasMadeTable := by
  obtain ⟨calls, sound, settled⟩ := sound
  rw [Machine.reloadedBy]
  split
  · next bytes wrote =>
      rw [StateFile.load]
      split
      · exact otherMade
      · split
        · next result found =>
            obtain ⟨restored, isRestored, rfl⟩ :=
              StateFile.exists_restored_of_read? sound.toIsStored settled wrote found
            exact (Evolves.refl true restored).checkEditor.hasMadeTable (isRestored.hasMadeTable made)
        · exact Variables.IsMade.new other.memory
  · exact otherMade

theorem IsReached.hasMadeTable (reached : machine.IsReached) : machine.HasMadeTable := by
  induction reached with
  | @new memory _ _ => exact Variables.IsMade.new memory
  | after _ input _ made => exact made.after input
  | reloaded reached _ version platform generator made otherMade =>
      exact made.reloadedBy reached.isSound otherMade version platform generator

end Machine

/-! ## Losing locals -/

/-- What is left of a table that has lost locals: its globals, and other entries of it, though what was hidden may
be in view. -/
structure Variables.LosesLocals (table after : Variables) : Prop where
  rest : (after.entries.map Variable.unhidden).Sublist (table.entries.map Variable.unhidden)
  globals : (after.entries.map Variable.unhidden).filter Variable.isGlobal =
    (table.entries.map Variable.unhidden).filter Variable.isGlobal

namespace Variables.LosesLocals

variable {table between after : Variables}

theorem refl (table : Variables) : table.LosesLocals table := ⟨.refl _, rfl⟩

theorem trans (first : table.LosesLocals between) (second : between.LosesLocals after) :
    table.LosesLocals after :=
  ⟨second.rest.trans first.rest, second.globals.trans first.globals⟩

theorem removeAt (front behind : List Variable) {entry : Variable} (isLocal : entry.isGlobal = false) :
    LosesLocals ⟨front ++ entry :: behind⟩ (Variables.removeAt ⟨front ++ entry :: behind⟩ front.length) := by
  have same : (Variables.removeAt ⟨front ++ entry :: behind⟩ front.length).entries.map Variable.unhidden =
      (front ++ behind).map Variable.unhidden := by
    rcases removeAt_cases front behind entry with ⟨upTo, older, later, rfl, -, -, -, removed⟩ | ⟨-, removed⟩
    · rw [removed]
      simp
    · rw [removed]
  have isLocal : entry.unhidden.isGlobal = false := isLocal
  constructor
  · rw [same]
    simp
  · rw [same]
    simp [isLocal]

theorem purgeFromLevel (table : Variables) (level : Int) :
    table.LosesLocals (table.purgeFromLevel level).2 :=
  purgeFromLevel_induction (fun init _ isLocal _ lost => lost.trans (removeAt init [] isLocal))
    (refl table)

/-- What is left was there, with its value. -/
theorem exists_older (lost : table.LosesLocals after) {entry : Variable} (member : entry ∈ after.entries) :
    ∃ older ∈ table.entries, older.name = entry.name ∧ older.level = entry.level ∧
      older.value = entry.value := by
  obtain ⟨older, isOlder, same⟩ := List.mem_map.mp (lost.rest.subset (List.mem_map_of_mem member))
  exact ⟨older, isOlder, (congrArg (·.name) same :), (congrArg (·.level) same :),
    (congrArg (·.value) same :)⟩

/-- Without any locals all that is left are the globals. -/
theorem entries_eq (lost : table.LosesLocals after) (allGlobal : ∀ entry ∈ after.entries, entry.isGlobal = true)
    (shown : ∀ entry ∈ after.entries, entry.has hiddenMark = false) :
    after.entries = (table.entries.filter Variable.isGlobal).map Variable.unhidden := by
  have same : after.entries.map Variable.unhidden = after.entries :=
    (List.map_congr_left fun entry member => Variable.unhidden_of_shown (shown entry member)).trans
      (List.map_id' _)
  have globals := lost.globals
  rw [same, List.filter_eq_self.mpr allGlobal, List.filter_map] at globals
  exact globals

end Variables.LosesLocals

/-! ## Forgetting -/

namespace Stack

/-- The top four values of a stack are those of another one. -/
def KeepsTop (stack after : Stack) : Prop :=
  ∀ index < fourLevels, ∀ value ∈ stack.get? index, after.get? index = some value

variable {stack between after : Stack}

theorem KeepsTop.refl (stack : Stack) : stack.KeepsTop stack := fun _ _ _ found => found

theorem KeepsTop.trans (first : stack.KeepsTop between) (second : between.KeepsTop after) :
    stack.KeepsTop after :=
  fun index isTop value found => second index isTop value (first index isTop value found)

theorem keepsTop_setBig (stack : Stack) (isBig : Bool) : stack.KeepsTop (stack.setBig isBig) := by
  intro index isTop value found
  obtain ⟨below, isValue⟩ := List.getElem?_eq_some_iff.mp found
  rw [setBig, ofValues, get?]
  split
  · exact found
  · rw [fitFour, List.getElem?_append_left (by rw [List.length_take]; exact lt_min isTop below),
      List.getElem?_take_of_lt isTop]
    exact found

end Stack

namespace Machine

variable {machine other after : Machine}

/-- A package is kept for the call at a level. -/
def KeepsPackage (machine : Machine) (level : Int) (package : CallPackage) : Prop :=
  ∃ entry ∈ machine.bindings.entries, entry.name = packageName ∧ entry.level = level ∧
    CallPackage.unpack entry.value = .ok package

/-- The mode of a stack after the calls of some frames were dropped: that in the package of the lowest call that has
one, or else the mode that there was. -/
structure RestoresMode (machine : Machine) (frames : List Frame) (stack : Stack) : Prop where
  saved : ∀ index, frames.reverse.findIdx? Frame.savesStack = some index →
    ∃ package, machine.KeepsPackage (index + 1) package ∧ stack.isBig = package.isBig
  unchanged : frames.reverse.findIdx? Frame.savesStack = none → stack = machine.stack

/-- A package that is taken is that of the level, and no global goes with it. -/
theorem IsSound.losesLocals_of_takePackage (sound : machine.IsSound) {package : CallPackage}
    {bindings : Variables}
    (takes : (takePackage machine.level).on machine = (.ok package, { machine with bindings })) :
    machine.bindings.LosesLocals bindings ∧ machine.KeepsPackage machine.level package := by
  rw [takePackage, on_bind, on_get] at takes
  dsimp only at takes
  split at takes
  · cases takes
  · next entry after purges =>
      rw [on_bind, on_set] at takes
      dsimp only at takes
      rw [on_lift] at takes
      obtain ⟨unpacked, left⟩ := Prod.mk.inj takes
      obtain rfl : after = bindings := congrArg Machine.bindings left
      obtain ⟨front, behind, split, rfl, named, allowed, -⟩ := Variables.exists_split_of_purge purges
      obtain ⟨calls, sound, settled⟩ := sound
      have member : entry ∈ machine.bindings.entries := by simp [split]
      have kept : entry ∈ calls.kept :=
        (settled.mem_kept sound).mpr ⟨member, by simp [named, reservedNames]⟩
      have isLocal : entry.isGlobal = false := by
        have levels := (sound.levels entry kept).1
        simp only [Variable.isGlobal, Variable.globalLevel, beq_eq_false_iff_ne, ne_eq]
        omega
      have atLevel : entry.level = machine.level := allowed.resolve_left (by simp [isLocal])
      have table : machine.bindings = ⟨front ++ entry :: behind⟩ := congrArg Variables.mk split
      exact ⟨table ▸ .removeAt front behind isLocal, entry, member, named, atLevel, unpacked⟩

/-- Dropping the latest call takes its package and its locals. -/
theorem IsSound.exists_dropCall (sound : machine.IsSound) {frame : Frame} {rest : List Frame}
    (items : machine.returns.items = frame :: rest) :
    ∃ stack bindings, Machine.dropCalls 1 machine =
        { machine with returns := { machine.returns with items := rest }, stack, bindings } ∧
      machine.bindings.LosesLocals bindings ∧
      (frame.savesStack = false ∧ stack = machine.stack ∨ frame.savesStack = true ∧
        ∃ package, machine.KeepsPackage (rest.length + 1) package ∧
          stack = machine.stack.setBig package.isBig) := by
  have level : machine.level = rest.length + 1 := by simp [Machine.level, BoundedStack.depth, items]
  have saves : machine.callSavesStack = frame.savesStack := by
    simp [callSavesStack, BoundedStack.top?, items]
  simp only [Machine.dropCalls, items]
  cases has : frame.savesStack with
  | false =>
      rw [if_neg (by simp [saves, has])]
      exact ⟨machine.stack, _, rfl, .purgeFromLevel _ _, .inl ⟨rfl, rfl⟩⟩
  | true =>
      rw [if_pos (saves.trans has)]
      obtain ⟨package, bindings, -, takes, -⟩ := sound.exists_package (saves.trans has)
      obtain ⟨lost, kept⟩ := sound.losesLocals_of_takePackage takes
      have abandoned : abandonFunction.attempt machine =
          { machine with bindings, stack := machine.stack.setBig package.isBig } := by
        rw [attempt, abandonFunction, on_bind, on_get]
        dsimp only
        rw [on_bind, takes]
        rfl
      rw [abandoned]
      exact ⟨_, _, rfl, lost.trans (.purgeFromLevel _ _), .inr ⟨rfl, package, level ▸ kept, rfl⟩⟩

theorem dropCalls_succ (fuel : Nat) (machine : Machine) :
    Machine.dropCalls (fuel + 1) machine = Machine.dropCalls fuel (Machine.dropCalls 1 machine) := by
  cases items : machine.returns.items with
  | nil =>
      have dropped : Machine.dropCalls 1 machine = machine := by simp [Machine.dropCalls, items]
      rw [dropped]
      cases fuel <;> simp [Machine.dropCalls, items]
  | cons frame rest => simp [Machine.dropCalls, items]

/-- What was kept is still kept if nothing else was lost than locals. -/
theorem KeepsPackage.of_losesLocals {level : Int} {package : CallPackage}
    (lost : machine.bindings.LosesLocals after.bindings) (keeps : after.KeepsPackage level package) :
    machine.KeepsPackage level package := by
  obtain ⟨entry, member, named, atLevel, unpacked⟩ := keeps
  obtain ⟨older, isOlder, sameName, sameLevel, sameValue⟩ := lost.exists_older member
  exact ⟨older, isOlder, sameName.trans named, sameLevel.trans atLevel, sameValue ▸ unpacked⟩

/-- Dropping all calls. The modes of the stack come back from the latest call to the lowest one. -/
theorem IsSound.exists_dropCalls (sound : machine.IsSound) {frames : List Frame}
    (items : machine.returns.items = frames) :
    ∃ stack bindings, Machine.dropCalls frames.length machine =
        { machine with returns := { machine.returns with items := [] }, stack, bindings } ∧
      machine.bindings.LosesLocals bindings ∧ machine.stack.KeepsTop stack ∧
      machine.RestoresMode frames stack := by
  induction frames generalizing machine with
  | nil =>
      refine ⟨machine.stack, machine.bindings, ?_, .refl _, .refl _, ⟨by simp, fun _ => rfl⟩⟩
      rw [List.length_nil, ← items]
      rfl
  | cons frame rest ih =>
      obtain ⟨between, table, dropped, lost, mode⟩ := sound.exists_dropCall items
      have soundBetween := sound.dropCalls 1
      rw [dropped] at soundBetween
      obtain ⟨stack, bindings, all, lostRest, keepsRest, restores⟩ := ih soundBetween rfl
      refine ⟨stack, bindings, ?_, lost.trans lostRest, ?_, ⟨fun index found => ?_, fun none => ?_⟩⟩
      · rw [List.length_cons, dropCalls_succ, dropped, all]
      · rcases mode with ⟨-, rfl⟩ | ⟨-, package, -, rfl⟩
        · exact keepsRest
        · exact (machine.stack.keepsTop_setBig _).trans keepsRest
      · rw [List.reverse_cons, List.findIdx?_append] at found
        cases lowest : rest.reverse.findIdx? Frame.savesStack with
        | some other =>
            rw [lowest] at found
            obtain rfl : other = index := Option.some.inj found
            obtain ⟨package, kept, isBig⟩ := restores.saved other lowest
            exact ⟨package, kept.of_losesLocals lost, isBig⟩
        | none =>
            rw [lowest] at found
            have stays : stack = between := restores.unchanged lowest
            rcases mode with ⟨saves, -⟩ | ⟨saves, package, kept, rfl⟩
            · simp [saves] at found
            · simp only [List.findIdx?_singleton, saves, if_true, Option.map_some, Option.none_or,
                List.length_reverse, Nat.zero_add, Option.some.injEq] at found
              exact ⟨package, found ▸ kept, stays ▸ rfl⟩
      · rw [List.reverse_cons, List.findIdx?_append, Option.or_eq_none_iff] at none
        have stays : stack = between := restores.unchanged none.1
        rcases mode with ⟨-, same⟩ | ⟨saves, -⟩
        · exact stays.trans same
        · simp [saves] at none

/-- The package that is kept for the call at a level. -/
def keptPackage? (machine : Machine) (level : Int) : Option CallPackage :=
  (machine.bindings.value? packageName level).bind fun value => (CallPackage.unpack value).toOption

theorem IsSound.keptPackage?_eq (sound : machine.IsSound) {level : Int} {package : CallPackage}
    (keeps : machine.KeepsPackage level package) : machine.keptPackage? level = some package := by
  obtain ⟨calls, sound, settled⟩ := sound
  obtain ⟨entry, member, named, rfl, unpacked⟩ := keeps
  have kept : entry ∈ calls.kept :=
    (settled.mem_kept sound).mpr ⟨member, by simp [named, reservedNames]⟩
  obtain ⟨front, behind, table, found⟩ :=
    settled.bindings.exists_lookup_kept sound.marked sound.unique kept
  rw [named] at found
  have value : machine.bindings.value? packageName entry.level = some entry.value := by
    rw [Variables.value?, found, table]
    simp [Variables.get?]
  simp [keptPackage?, value, unpacked, Except.toOption]

/-- What a machine comes to that forgets its calls. -/
structure ForgetsCalls (machine after : Machine) : Prop where
  returns : after.returns = { machine.returns with items := [] }
  /-- The globals are left, in their order and with their values, and nothing hides them any more. -/
  bindings : after.bindings.entries = (machine.bindings.entries.filter Variable.isGlobal).map Variable.unhidden
  /-- Frames are counted from the bottom, where the level of the first is one. -/
  mode : ∀ index, machine.returns.items.reverse.findIdx? Frame.savesStack = some index →
    ∃ package, machine.keptPackage? (index + 1) = some package ∧ after.stack.isBig = package.isBig
  stack : machine.returns.items.reverse.findIdx? Frame.savesStack = none → after.stack = machine.stack
  top : machine.stack.KeepsTop after.stack
  editor : ∀ editor ∈ after.editor, editor ∈ machine.editor ∧ after.editorHasTarget editor = true
  same : after = { machine with
    returns := after.returns, bindings := after.bindings, stack := after.stack, editor := after.editor }

/-- In a table from which all locals were removed nothing is hidden. -/
theorem IsSound.entries_of_purged (sound : machine.IsSound) (made : machine.HasMadeTable)
    (lost : other.bindings.LosesLocals machine.bindings) :
    ((machine.bindings.purgeFromLevel 0).2).entries =
      (other.bindings.entries.filter Variable.isGlobal).map Variable.unhidden := by
  obtain ⟨calls, sound, settled⟩ := sound
  have purged := settled.bindings.purgeFromLevel (show Variable.globalLevel < 0 by decide)
    sound.marked.hidesNothing
  have lostAll := lost.trans (.purgeFromLevel machine.bindings 0)
  have allGlobal : ∀ entry ∈ (machine.bindings.purgeFromLevel 0).2.entries,
      entry.level = Variable.globalLevel := by
    intro entry member
    have levels := purged.levels entry member
    rw [Variable.globalLevel] at levels ⊢
    omega
  refine lostAll.entries_eq (fun entry member => ?_) fun entry member => ?_
  · rw [Variable.isGlobal, allGlobal entry member, beq_self_eq_true]
  · refine (made.purgeFromLevel 0).isChained.shown_of_global allGlobal member fun reserved => ?_
    -- What calls keep is local.
    obtain ⟨older, isOlder, named, level, -⟩ :=
      (Variables.LosesLocals.purgeFromLevel machine.bindings 0).exists_older member
    have kept := (settled.mem_kept sound).mpr ⟨isOlder, named ▸ reserved⟩
    have isLocal := (sound.levels older kept).1
    rw [level, allGlobal entry member, Variable.globalLevel] at isLocal
    omega

/-- Every machine that can be reached forgets its calls and nothing else. -/
theorem IsReached.forgetsCalls (reached : machine.IsReached) : machine.ForgetsCalls machine.clearReturns := by
  have sound := reached.isSound
  obtain ⟨stack, bindings, dropped, lost, top, mode⟩ := sound.exists_dropCalls rfl
  have soundDropped := sound.dropCalls machine.returns.depth
  have madeDropped : (Machine.dropCalls machine.returns.depth machine).HasMadeTable :=
    ((Evolves.refl true machine).dropCalls machine.returns.depth).hasMadeTable reached.hasMadeTable
  have depth : machine.returns.depth = machine.returns.items.length := rfl
  rw [depth, dropped] at soundDropped madeDropped
  have entries := soundDropped.entries_of_purged madeDropped lost
  rw [Machine.clearReturns, depth, dropped]
  obtain ⟨editor, checked, active⟩ := exists_checkEditor (Machine.purgeLevel { machine with
    returns := { machine.returns with items := [] }, stack, bindings } 0)
  rw [checked]
  refine ⟨rfl, entries, fun index lowest => ?_, mode.unchanged, top, active, rfl⟩
  obtain ⟨package, kept, isBig⟩ := mode.saved index lowest
  exact ⟨package, sound.keptPackage?_eq kept, isBig⟩

/-- Store a global and run a program up to where a subroutine has hidden it and changed the mode of the stack. -/
def shadowingInputs : List Input :=
  ["NSTK", "STO \"X\"", "PRGM", "LBL \"A\"", "XEQ \"B\"", "RTN", "LBL \"B\"", "L4STK", "LSTO \"X\"", "PRGM",
    "XEQ \"A\""].map .enter ++ [.execute 5]

/-- A machine in a subroutine with a local over a global and a stack mode of its own. -/
def shadowing : Machine := shadowingInputs.foldl Machine.after (initial default)

/-- The global is in view again, and the stack has the mode of the caller. -/
theorem forgetsCalls_shadowing :
    (shadowing.IsReached ∧
      shadowing.bindings.entries.map (fun entry => entry.has hiddenMark) = [false, true, true, false] ∧
      shadowing.returns.items.map Frame.savesStack = [true] ∧ shadowing.stack.isBig = false) ∧
    shadowing.ForgetsCalls shadowing.clearReturns ∧
      shadowing.clearReturns.bindings.entries.map (fun entry => entry.has hiddenMark) = [false, false] ∧
      shadowing.clearReturns.stack.isBig = true := by
  obtain ⟨spare, hidden, saves, small, shown, big⟩ : Input.AllSpare shadowingInputs (initial default) ∧
      shadowing.bindings.entries.map (fun entry => entry.has hiddenMark) = [false, true, true, false] ∧
      shadowing.returns.items.map Frame.savesStack = [true] ∧ shadowing.stack.isBig = false ∧
      shadowing.clearReturns.bindings.entries.map (fun entry => entry.has hiddenMark) = [false, false] ∧
      shadowing.clearReturns.stack.isBig = true := by decide +kernel
  have reached : shadowing.IsReached := (IsReached.initial default).afterAll spare
  exact ⟨⟨reached, hidden, saves, small⟩, reached.forgetsCalls, shown, big⟩

end Machine

end Keystroke
