import Mathlib
import Keystroke.Machine.Calls
import Keystroke.Proofs.Calls.Values
import Keystroke.Proofs.VariableTable

/-!
# What calls keep in the table of variables

Calls keep things in variables with two reserved names. Apart from these the table holds values that
keep to free storages, in the order of levels and no deeper than the calls. Operations on other names
leave alone what is kept.
-/

namespace Keystroke

open Variable (globalLevel)
open Machine (packageName parkedEditorName keptMarks)

/-- The names of the variables in which calls keep things. -/
def reservedNames : List (List UInt8) := [packageName, parkedEditorName]

/-- Whether a call keeps something in a variable, if it does so under some names. -/
def Variable.isKept (names : List (List UInt8)) (entry : Variable) : Bool := names.contains entry.name

@[simp]
theorem Variable.isKept_eq_false {names : List (List UInt8)} {entry : Variable} :
    entry.isKept names = false ↔ entry.name ∉ names := by
  simp [isKept]

/-- The name and the level of a variable. -/
def Variable.key (entry : Variable) : List UInt8 × Int := (entry.name, entry.level)

theorem checkName_of_reserved {name : List UInt8} (reserved : name ∈ reservedNames) :
    Variable.checkName name = .ok () := by
  simp only [reservedNames, List.mem_cons, List.not_mem_nil, or_false] at reserved
  rcases reserved with rfl | rfl <;> rfl

theorem Variable.ordinary_checkName (name : List UInt8) : Outcome.IsOrdinary (checkName name) := by
  refine Outcome.ends_ite (fun _ => ?_) fun _ => Outcome.ends_ite (fun _ => ?_) fun _ => trivial
  · simp
  · exact Outcome.ends_fail rfl

namespace Variables

theorem removeAt_append_cons (front behind : List Variable) (entry : Variable) :
    removeAt ⟨front ++ entry :: behind⟩ front.length =
      if entry.has Variable.hidingMark then
        match lastIndex? (fun other => other.name == entry.name && other.has Variable.hiddenMark)
          front with
        | some older => modify ⟨front ++ behind⟩ older fun other =>
            { other with marks := other.marks &&& ~~~Variable.hiddenMark }
        | none => ⟨front ++ behind⟩
      else ⟨front ++ behind⟩ := by
  have rest : (front ++ entry :: behind).eraseIdx front.length = front ++ behind := by
    rw [List.eraseIdx_append_of_length_le le_rfl]
    simp
  cases hides : entry.has Variable.hidingMark with
  | false => simp [removeAt, rest, hides]
  | true =>
      cases older : lastIndex? (fun other => other.name == entry.name && other.has Variable.hiddenMark)
        front with
      | none => simp [removeAt, rest, hides, older]
      | some index => simp [removeAt, rest, hides, older]

/-- A table in which calls keep the given entries under some names. -/
structure IsSettled (names : List (List UInt8)) (kept : List Variable) (depth : Int)
    (free : Nat → Prop) (table : Variables) : Prop where
  ordered : table.entries.Pairwise fun older newer => older.level ≤ newer.level
  levels : ∀ entry ∈ table.entries, globalLevel ≤ entry.level ∧ entry.level ≤ depth
  kept : table.entries.filter (Variable.isKept names) = kept
  fits : ∀ entry ∈ table.entries, entry.name ∉ names → entry.value.Fits free

/-- At a position no call keeps anything. -/
def IsOpen (names : List (List UInt8)) (table : Variables) (index : Nat) : Prop :=
  ∀ entry ∈ table.get? index, entry.name ∉ names

variable {names : List (List UInt8)}

theorem IsOpen.setValue {table : Variables} {index : Nat} (isOpen : table.IsOpen names index) (other : Nat)
    (value : Value) : (table.setValue other value).IsOpen names index := by
  intro entry got
  rw [get?, Variables.setValue, modify, List.getElem?_modify] at got
  obtain ⟨older, found, rfl⟩ := Option.map_eq_some_iff.mp got
  have unreserved := isOpen older found
  split
  · exact unreserved
  · exact unreserved

namespace IsSettled

variable {kept : List Variable} {depth : Int} {free : Nat → Prop} {table : Variables}
  {front behind : List Variable} {entry : Variable}

theorem imp {freer : Nat → Prop} (settled : table.IsSettled names kept depth free)
    (weaken : ∀ number, free number → freer number) : table.IsSettled names kept depth freer :=
  { settled with
    fits := fun entry member unreserved =>
      (settled.fits entry member unreserved).imp weaken }

theorem deepen (settled : table.IsSettled names kept depth free) {deeper : Int} (le : depth ≤ deeper) :
    table.IsSettled names kept deeper free :=
  { settled with
    levels := fun entry member =>
      ⟨(settled.levels entry member).1, (settled.levels entry member).2.trans le⟩ }

/-- Another value or other marks for a variable that is not kept. -/
theorem change (settled : IsSettled names kept depth free ⟨front ++ entry :: behind⟩)
    (unreserved : entry.name ∉ names) {marks : UInt8} {value : Value}
    (fits : value.Fits free) :
    IsSettled names kept depth free ⟨front ++ ⟨entry.name, entry.level, marks, value⟩ :: behind⟩ := by
  obtain ⟨ordered, levels, same, allFit⟩ := settled
  constructor
  · simpa [List.pairwise_append, List.pairwise_cons] using ordered
  · simpa [or_imp, forall_and] using levels
  · simpa [List.filter_cons, Variable.isKept, unreserved] using same
  · simp only [List.mem_append, List.mem_cons, or_imp, forall_and] at allFit ⊢
    exact ⟨allFit.1, fun _ again _ => again ▸ fits, allFit.2.2⟩

/-- Another entry of the deepest level at the end. -/
theorem append (settled : table.IsSettled names kept depth free) (isLocal : globalLevel ≤ depth)
    (atDepth : entry.level = depth)
    (fits : entry.name ∉ names → entry.value.Fits free) :
    IsSettled names (kept ++ [entry].filter (Variable.isKept names)) depth free
      ⟨table.entries ++ [entry]⟩ where
  ordered := by
    apply Represents.pairwise_append_deepest settled.ordered
    intro older member
    exact atDepth ▸ (settled.levels older member).2
  levels := by
    simp only [List.mem_append, List.mem_singleton, or_imp, forall_and, forall_eq]
    exact ⟨⟨fun older member => (settled.levels older member).1, atDepth ▸ isLocal⟩,
      fun older member => (settled.levels older member).2, atDepth.le⟩
  kept := by rw [List.filter_append, settled.kept]
  fits := by
    simp only [List.mem_append, List.mem_singleton, or_imp, forall_and, forall_eq]
    exact ⟨settled.fits, fits⟩

/-- One entry less. -/
theorem remove (settled : IsSettled names kept depth free ⟨front ++ entry :: behind⟩) :
    IsSettled names ((front ++ behind).filter (Variable.isKept names)) depth free ⟨front ++ behind⟩ := by
  have sublist : List.Sublist (front ++ behind) (front ++ entry :: behind) :=
    List.Sublist.append_left (List.sublist_cons_self ..) _
  exact {
    ordered := settled.ordered.sublist sublist
    levels := fun older member => settled.levels older (sublist.subset member)
    kept := rfl
    fits := fun older member => settled.fits older (sublist.subset member) }

/-! ## Storing -/

/-- Where a name that calls do not use is found. -/
theorem exists_of_lookup {name : List UInt8} {level : Int} {index : Nat}
    (found : table.lookup? name level = some index) :
    ∃ front entry behind, table = ⟨front ++ entry :: behind⟩ ∧ front.length = index ∧
      entry.name = name := by
  obtain ⟨front, entry, behind, entries, length, named, -⟩ := exists_split_of_lastIndex? found
  simp only [Bool.and_eq_true, beq_iff_eq] at named
  exact ⟨front, entry, behind, congrArg Variables.mk entries, length, named.1⟩

theorem isOpen_of_lookup {name : List UInt8} {level : Int} {index : Nat}
    (found : table.lookup? name level = some index) (unreserved : name ∉ names) :
    table.IsOpen names index := by
  obtain ⟨front, entry, behind, rfl, rfl, named⟩ := exists_of_lookup found
  simpa [IsOpen, get?, named] using unreserved

theorem fits_get (settled : table.IsSettled names kept depth free) {index : Nat}
    (isOpen : table.IsOpen names index) : ∀ entry ∈ table.get? index, entry.value.Fits free :=
  fun entry got => settled.fits entry (List.mem_of_getElem? got) (isOpen entry got)

theorem value (settled : table.IsSettled names kept depth free) {name : List UInt8} {level : Int}
    (unreserved : name ∉ names) :
    ∀ value ∈ table.value? name level, value.Fits free := by
  intro value member
  obtain ⟨entry, got, rfl⟩ := Option.map_eq_some_iff.mp member
  obtain ⟨index, found, got⟩ := Option.bind_eq_some_iff.mp got
  exact settled.fits_get (isOpen_of_lookup found unreserved) entry got

theorem setValue (settled : table.IsSettled names kept depth free) {index : Nat}
    (isOpen : table.IsOpen names index) {value : Value} (fits : value.Fits free) :
    (table.setValue index value).IsSettled names kept depth free := by
  by_cases bound : index < table.entries.length
  · obtain ⟨front, entry, behind, rfl, rfl⟩ : ∃ front entry behind,
        table = ⟨front ++ entry :: behind⟩ ∧ front.length = index :=
      ⟨table.entries.take index, table.entries[index], table.entries.drop (index + 1),
        congrArg Variables.mk (by rw [← List.drop_eq_getElem_cons bound, List.take_append_drop]),
        by simp [bound.le]⟩
    rw [Variables.setValue, modify_append_cons]
    exact settled.change (isOpen entry (by simp [get?])) fits
  · rw [Variables.setValue, modify, List.modify_eq_self (not_lt.mp bound)]
    exact settled

theorem insertGlobal (settled : table.IsSettled names kept depth free) (isLocal : globalLevel ≤ depth)
    {name : List UInt8} (unreserved : name ∉ names) {value : Value}
    (fits : value.Fits free) : (table.insertGlobal name value).IsSettled names kept depth free := by
  have parts := List.takeWhile_append_dropWhile (p := Variable.isGlobal) (l := table.entries)
  obtain ⟨ordered, levels, same, allFit⟩ := settled
  have globals : ∀ entry ∈ table.entries.takeWhile Variable.isGlobal, entry.level = globalLevel :=
    fun entry member => by simpa [Variable.isGlobal] using List.mem_takeWhile_imp member
  rw [← parts] at ordered levels same allFit
  simp only [Variables.insertGlobal]
  constructor
  · simp only [List.pairwise_append, List.pairwise_cons, List.mem_cons, or_imp, forall_and,
      forall_eq] at ordered ⊢
    refine ⟨ordered.1, ⟨fun entry member => ?_, ordered.2.1⟩,
      ⟨fun entry member => (globals entry member).le, fun entry member => ordered.2.2 entry member⟩⟩
    exact (levels entry (List.mem_append_right _ member)).1
  · simp only [List.mem_append, List.mem_cons, or_imp, forall_and, forall_eq] at levels ⊢
    exact ⟨⟨levels.1.1, le_rfl, levels.1.2⟩, levels.2.1, isLocal, levels.2.2⟩
  · rw [List.filter_append, List.filter_cons_of_neg (by simpa [Variable.isKept] using unreserved),
      ← List.filter_append]
    exact same
  · simp only [List.mem_append, List.mem_cons, or_imp, forall_and, forall_eq] at allFit ⊢
    exact ⟨allFit.1, fun _ => fits, allFit.2⟩

theorem store (settled : table.IsSettled names kept depth free) (isLocal : globalLevel ≤ depth)
    {name : List UInt8} (unreserved : name ∉ names) {value : Value}
    (fits : value.Fits free) (level : Int) :
    Outcome.Ends (fun after => after.IsSettled names kept depth free) (table.store name value level) := by
  refine (Variable.ordinary_checkName name).bind fun _ _ => ?_
  split
  · next index found => exact settled.setValue (isOpen_of_lookup found unreserved) fits
  · exact settled.insertGlobal isLocal unreserved fits

/-- An entry of the deepest level under a name that calls do not use. -/
theorem storeLocal (settled : table.IsSettled names kept depth free) (isLocal : globalLevel ≤ depth)
    {name : List UInt8} (unreserved : name ∉ names) {value : Value}
    (fits : value.Fits free) (marks : UInt8) :
    Outcome.Ends (fun result => result.2.IsSettled names kept depth free)
      (table.storeLocal name value depth marks) := by
  have appended : ∀ {table : Variables} (marks : UInt8), table.IsSettled names kept depth free →
      IsSettled names kept depth free ⟨table.entries ++ [⟨name, depth, marks, value⟩]⟩ := by
    intro table marks settled
    let entry : Variable := ⟨name, depth, marks, value⟩
    have longer := settled.append isLocal (show entry.level = depth from rfl) fun _ => fits
    simpa [entry, Variable.isKept, unreserved] using longer
  refine (Variable.ordinary_checkName name).bind fun _ _ => ?_
  split
  · exact appended marks settled
  · next index found =>
      obtain ⟨front, entry, behind, entries, rfl, named, -⟩ := exists_split_of_lastIndex? found
      obtain rfl : table = ⟨front ++ entry :: behind⟩ := congrArg Variables.mk entries
      have unreservedEntry : entry.name ∉ names := by
        simpa [eq_of_beq named] using unreserved
      refine Outcome.ends_ite (fun _ => ?_) fun _ => Outcome.ends_ite (fun _ => ?_) fun _ => ?_
      · rw [Outcome.ends_pure, Variables.setValue, modify_append_cons]
        exact settled.change unreservedEntry fits
      · exact appended marks settled
      · rw [Outcome.ends_pure, modify_append_cons]
        exact appended _ (settled.change unreservedEntry
          (settled.fits entry (by simp) unreservedEntry))

/-! ## Removing -/

/-- Removing a variable that is not kept. What it hid is not kept either. -/
theorem removeAt (settled : IsSettled names kept depth free ⟨front ++ entry :: behind⟩)
    (unreserved : entry.name ∉ names) :
    (Variables.removeAt ⟨front ++ entry :: behind⟩ front.length).IsSettled names kept depth free := by
  have rest : IsSettled names kept depth free ⟨front ++ behind⟩ := by
    have same := settled.kept
    simp only [List.filter_append, List.filter_cons, Variable.isKept, List.contains_eq_mem,
      unreserved, decide_false, Bool.false_eq_true, if_false] at same
    have removed := settled.remove
    rw [List.filter_append] at removed
    rwa [← same]
  rw [removeAt_append_cons]
  split
  · split
    · next older found =>
        obtain ⟨upTo, hidden, later, rfl, rfl, isHidden, -⟩ := exists_split_of_lastIndex? found
        simp only [Bool.and_eq_true, beq_iff_eq] at isHidden
        rw [List.append_assoc, List.cons_append] at rest ⊢
        rw [modify_append_cons]
        have unreservedHidden : hidden.name ∉ names := isHidden.1 ▸ unreserved
        exact rest.change unreservedHidden (rest.fits hidden (by simp) unreservedHidden)
    · exact rest
  · exact rest

theorem purge (settled : table.IsSettled names kept depth free) {name : List UInt8} {level : Int}
    (unreserved : name ∉ names) :
    ∀ removed ∈ table.purge name level,
      removed.1.value.Fits free ∧ removed.2.IsSettled names kept depth free := by
  intro removed member
  simp only [Option.mem_def, Variables.purge, Option.bind_eq_bind, Option.bind_eq_some_iff] at member
  obtain ⟨index, found, entry, got, purged⟩ := member
  have fits := settled.fits_get (isOpen_of_lookup found unreserved) entry got
  obtain ⟨front, other, behind, rfl, rfl, named⟩ := exists_of_lookup found
  split at purged
  · cases purged
    exact ⟨fits, settled.removeAt (named ▸ unreserved)⟩
  · cases purged

/-- Removing what is kept. It hides nothing, so nothing else changes. -/
theorem removeAt_kept (settled : IsSettled names kept depth free ⟨front ++ entry :: behind⟩)
    (plain : entry.has Variable.hidingMark = false) :
    (Variables.removeAt ⟨front ++ entry :: behind⟩ front.length).IsSettled names
      ((front ++ behind).filter (Variable.isKept names)) depth free := by
  rw [removeAt_append_cons, if_neg (by simp [plain])]
  exact settled.remove

/-- A table with nothing at a level or below it. -/
theorem of_below (settled : table.IsSettled names kept depth free) {level : Int}
    (below : ∀ entry ∈ table.entries, entry.level < level) :
    table.IsSettled names (kept.filter fun entry => entry.level < level) (level - 1) free where
  ordered := settled.ordered
  levels entry member := ⟨(settled.levels entry member).1, Int.le_sub_one_of_lt (below entry member)⟩
  kept := by
    rw [settled.kept, List.filter_eq_self.mpr]
    intro entry member
    rw [← settled.kept] at member
    simpa using below entry (List.mem_of_mem_filter member)
  fits := settled.fits

/-- Without its last entry, a table keeps what calls keep apart from that entry. -/
theorem removeLast {init : List Variable} {last : Variable}
    (settled : IsSettled names kept depth free ⟨init ++ [last]⟩)
    (plain : ∀ entry ∈ kept, entry.has Variable.hidingMark = false) :
    ∃ fewer, (Variables.removeAt ⟨init ++ [last]⟩ init.length).IsSettled names fewer depth free ∧
      (kept = fewer ∨ kept = fewer ++ [last]) := by
  by_cases reserved : last.name ∈ names
  · have isKept : last.isKept names = true := by simpa [Variable.isKept] using reserved
    have parts : kept = init.filter (Variable.isKept names) ++ [last] := by
      rw [← settled.kept, List.filter_append]
      simp [isKept]
    have removed := settled.removeAt_kept (plain last (by simp [parts]))
    rw [List.append_nil] at removed
    exact ⟨_, removed, .inr parts⟩
  · exact ⟨kept, settled.removeAt reserved, .inl rfl⟩

theorem purgeFromLevel_go {level : Int} (isLocal : globalLevel < level)
    (plain : ∀ entry ∈ kept, entry.has Variable.hidingMark = false) {fuel count : Nat}
    (settled : table.IsSettled names kept depth free) (enough : table.entries.length ≤ fuel) :
    (Variables.purgeFromLevel.go level fuel count table).2.IsSettled names
      (kept.filter fun entry => entry.level < level) (level - 1) free := by
  induction fuel generalizing table kept count with
  | zero =>
      have empty : table.entries = [] := List.eq_nil_of_length_eq_zero (by omega)
      exact settled.of_below (by simp [empty])
  | succ fuel ih =>
      rw [Variables.purgeFromLevel.go]
      rcases List.eq_nil_or_concat table.entries with empty | ⟨init, last, entries⟩
      · have below : ∀ entry ∈ table.entries, entry.level < level := by simp [empty]
        simpa [empty] using settled.of_below below
      · rw [List.concat_eq_append] at entries
        obtain rfl : table = ⟨init ++ [last]⟩ := congrArg Variables.mk entries
        simp only [List.getLast?_append_cons, List.getLast?_singleton]
        split
        · next stops =>
            have lastBelow : last.level < level := by
              simp only [Variable.isGlobal, Bool.or_eq_true, decide_eq_true_eq, beq_iff_eq] at stops
              omega
            apply settled.of_below
            intro entry member
            rcases List.mem_append.mp member with older | isLast
            · have ordered := settled.ordered
              simp only [List.pairwise_append, List.mem_singleton, forall_eq] at ordered
              exact (ordered.2.2 entry older).trans_lt lastBelow
            · rwa [List.mem_singleton.mp isLast]
        · next goes =>
            have atLevel : ¬ last.level < level := by
              simp only [Bool.or_eq_true, decide_eq_true_eq, not_or] at goes
              exact goes.1
            have place : (init ++ [last]).length - 1 = init.length := by simp
            have shorter : ((⟨init ++ [last]⟩ : Variables).removeAt init.length).entries.length ≤
                fuel := by
              rw [length_removeAt _ (by simp)]
              simpa using enough
            rw [place]
            obtain ⟨fewer, removed, rfl | rfl⟩ := settled.removeLast plain
            · exact ih plain removed shorter
            · rw [List.filter_append, List.filter_singleton, decide_eq_false atLevel, cond_false,
                List.append_nil]
              exact ih (fun entry member => plain entry (List.mem_append_left _ member)) removed shorter

/-- Purging a level leaves what calls above it keep. -/
theorem purgeFromLevel {level : Int} (isLocal : globalLevel < level)
    (plain : ∀ entry ∈ kept, entry.has Variable.hidingMark = false)
    (settled : table.IsSettled names kept depth free) :
    (table.purgeFromLevel level).2.IsSettled names (kept.filter fun entry => entry.level < level)
      (level - 1) free :=
  settled.purgeFromLevel_go isLocal plain le_rfl

/-! ## Keeping -/

/-- Another value in a variable that is kept. -/
theorem changeKept (settled : IsSettled names kept depth free ⟨front ++ entry :: behind⟩)
    (reserved : entry.name ∈ names) (value : Value) :
    IsSettled names
      (front.filter (Variable.isKept names) ++
        { entry with value } :: behind.filter (Variable.isKept names))
      depth free ⟨front ++ { entry with value } :: behind⟩ := by
  have isKept : ({ entry with value } : Variable).isKept names = true := by
    simpa [Variable.isKept] using reserved
  obtain ⟨ordered, levels, -, allFit⟩ := settled
  constructor
  · simpa [List.pairwise_append, List.pairwise_cons] using ordered
  · simpa [or_imp, forall_and] using levels
  · rw [List.filter_append, List.filter_cons_of_pos isKept]
  · simp only [List.mem_append, List.mem_cons, or_imp, forall_and, forall_eq] at allFit ⊢
    exact ⟨allFit.1, fun unreserved => absurd reserved unreserved, allFit.2.2⟩

/-- The marks of what calls keep: it is private, and hides nothing. -/
def Marked (kept : List Variable) : Prop := ∀ entry ∈ kept, entry.marks = keptMarks

theorem Marked.hidesNothing (marked : Marked kept) :
    ∀ entry ∈ kept, entry.has Variable.hidingMark = false := by
  intro entry member
  rw [Variable.has, marked entry member]
  decide

/-- Keeping a value at the deepest level puts it in the place of the one that was kept there under that
name, or at the end. -/
theorem keep (settled : table.IsSettled names kept depth free) (isLocal : globalLevel ≤ depth)
    (marked : Marked kept) {name : List UInt8} (reserved : name ∈ names)
    (allowed : Variable.checkName name = .ok ()) (value : Value) :
    ∃ hides after, table.storeLocal name value depth keptMarks = .ok (hides, after) ∧
      ((∀ entry ∈ kept, entry.name = name → entry.level ≠ depth) ∧
          after.IsSettled names (kept ++ [⟨name, depth, keptMarks, value⟩]) depth free ∨
        ∃ front entry behind, kept = front ++ entry :: behind ∧ entry.name = name ∧
          entry.level = depth ∧
            after.IsSettled names (front ++ { entry with value } :: behind) depth free) := by
  have appended : IsSettled names (kept ++ [⟨name, depth, keptMarks, value⟩]) depth free
      ⟨table.entries ++ [⟨name, depth, keptMarks, value⟩]⟩ := by
    let entry : Variable := ⟨name, depth, keptMarks, value⟩
    have longer := settled.append isLocal (show entry.level = depth from rfl) fun unreserved =>
      absurd reserved unreserved
    have isKept : entry.isKept names = true := by simpa [entry, Variable.isKept] using reserved
    simpa [isKept] using longer
  rw [Variables.storeLocal, allowed]
  cases found : lastIndex? (fun entry : Variable => entry.name == name) table.entries with
  | none =>
      refine ⟨false, _, by simp [bind, Except.bind]; rfl, .inl ⟨?_, appended⟩⟩
      intro entry member named
      rw [← settled.kept] at member
      have noName := lastIndex?_eq_none.mp found entry (List.mem_of_mem_filter member)
      simp [named] at noName
  | some index =>
      -- Levels ascend, so only the innermost entry of the name can be at the deepest level.
      obtain ⟨front, entry, behind, entries, rfl, named, noneBehind⟩ := exists_split_of_lastIndex? found
      obtain rfl : table = ⟨front ++ entry :: behind⟩ := congrArg Variables.mk entries
      obtain rfl := eq_of_beq named
      have isKept : entry.isKept names = true := by simpa [Variable.isKept] using reserved
      have parts : kept = front.filter (Variable.isKept names) ++
          entry :: behind.filter (Variable.isKept names) := by
        rw [← settled.kept, List.filter_append, List.filter_cons_of_pos isKept]
      have older : (front ++ entry :: behind).getD front.length default = entry := by simp
      by_cases sameLevel : entry.level = depth
      · refine ⟨false, _, ?_, .inr ⟨_, entry, _, parts, rfl, sameLevel, settled.changeKept reserved value⟩⟩
        simp only [bind, Except.bind, older, sameLevel, if_true, Variables.setValue,
          modify_append_cons]
        rfl
      · have isHidden : entry.has Variable.hiddenMark = true := by
          rw [Variable.has, marked entry (by simp [parts])]
          decide
        refine ⟨false, _, ?_, .inl ⟨?_, appended⟩⟩
        · simp only [bind, Except.bind, older, sameLevel, isHidden, if_true, if_false]
          rfl
        · intro other member sameName otherLevel
          have ordered := settled.ordered
          have entryLevel := (settled.levels entry (by simp)).2
          rw [← settled.kept] at member
          rcases List.mem_append.mp (List.mem_of_mem_filter member) with before | behindOrSame
          · simp only [List.pairwise_append, List.mem_cons, or_imp, forall_and, forall_eq] at ordered
            have := ordered.2.2.1 other before
            omega
          · rcases List.mem_cons.mp behindOrSame with rfl | later
            · exact sameLevel otherLevel
            · simpa [sameName] using noneBehind other later

/-- What is kept once an entry has been put among it, in the place of the one with its name and level if
there was one. The others stay. -/
structure Replaces (entry : Variable) (kept others replaced : List Variable) : Prop where
  perm : replaced.Perm (entry :: others)
  sublist : others.Sublist kept
  covers : ∀ key ∈ kept.map Variable.key, key ∈ others.map Variable.key ∨ key = entry.key
  alone : entry.key ∉ others.map Variable.key

namespace Replaces

variable {others replaced : List Variable} (replaces : Replaces entry kept others replaced)

include replaces

theorem eq_or_mem {other : Variable} (member : other ∈ replaced) : other = entry ∨ other ∈ kept :=
  (List.mem_cons.mp (replaces.perm.subset member)).imp_right fun older => replaces.sublist.subset older

theorem mem_keys {key : List UInt8 × Int} :
    key ∈ replaced.map Variable.key ↔ key ∈ kept.map Variable.key ∨ key = entry.key := by
  rw [(replaces.perm.map Variable.key).mem_iff, List.map_cons, List.mem_cons]
  constructor
  · rintro (same | older)
    · exact .inr same
    · exact .inl ((replaces.sublist.map Variable.key).subset older)
  · rintro (older | same)
    · exact (replaces.covers key older).symm
    · exact .inl same

theorem nodup_keys (keys : (kept.map Variable.key).Nodup) : (replaced.map Variable.key).Nodup :=
  (replaces.perm.map Variable.key).nodup_iff.mpr
    (List.nodup_cons.mpr ⟨replaces.alone, keys.sublist (replaces.sublist.map Variable.key)⟩)

end Replaces

/-- Keeping a value brings one entry, in the place of one with the same name and level if there is one. -/
theorem keep_one (settled : table.IsSettled names kept depth free) (isLocal : globalLevel ≤ depth)
    (marked : Marked kept) (keys : (kept.map Variable.key).Nodup) {name : List UInt8}
    (reserved : name ∈ names) (allowed : Variable.checkName name = .ok ()) (value : Value) :
    ∃ hides after others replaced, table.storeLocal name value depth keptMarks = .ok (hides, after) ∧
      after.IsSettled names replaced depth free ∧
      Replaces ⟨name, depth, keptMarks, value⟩ kept others replaced := by
  obtain ⟨hides, after, stored, ⟨noneYet, settledAfter⟩ |
    ⟨front, entry, behind, rfl, named, atDepth, settledAfter⟩⟩ :=
      settled.keep isLocal marked reserved allowed value
  · refine ⟨hides, after, kept, _, stored, settledAfter, List.perm_append_singleton .., List.Sublist.refl _,
      fun _ => .inl, fun member => ?_⟩
    obtain ⟨entry, isKept, key⟩ := List.mem_map.mp member
    exact noneYet entry isKept (congrArg Prod.fst key) (congrArg Prod.snd key)
  · have marks : entry.marks = keptMarks := marked entry (by simp)
    have same : ({ entry with value } : Variable) = ⟨name, depth, keptMarks, value⟩ := by
      rw [← named, ← atDepth, ← marks]
    rw [same] at settledAfter
    have key : entry.key = (name, depth) := Prod.ext named atDepth
    rw [List.map_append, List.map_cons, List.nodup_middle, key, List.nodup_cons, ← List.map_append]
      at keys
    refine ⟨hides, after, front ++ behind, _, stored, settledAfter, List.perm_middle,
      List.Sublist.append_left (List.sublist_cons_self ..) _, fun other member => ?_, keys.1⟩
    simp only [List.map_append, List.map_cons, List.mem_append, List.mem_cons, key] at member ⊢
    tauto

/-- What is kept is found from its own level. -/
theorem exists_lookup_kept (settled : table.IsSettled names kept depth free) (marked : Marked kept)
    (unique : ∀ first ∈ kept, ∀ second ∈ kept,
      first.name = second.name → first.level = second.level → first = second)
    (member : entry ∈ kept) :
    ∃ front behind, table = ⟨front ++ entry :: behind⟩ ∧
      table.lookup? entry.name entry.level = some front.length := by
  have inTable : entry ∈ table.entries ∧ entry.isKept names = true := by
    rw [← settled.kept] at member
    exact List.mem_filter.mp member
  have isPrivate : entry.has Variable.privateMark = true := by
    rw [Variable.has, marked entry member]
    decide
  cases found : table.lookup? entry.name entry.level with
  | none =>
      have unseen := lastIndex?_eq_none.mp found entry inTable.1
      simp [Variable.isSeenFrom] at unseen
  | some index =>
      obtain ⟨front, other, behind, entries, rfl, named, -⟩ := exists_split_of_lastIndex? found
      simp only [Bool.and_eq_true, beq_iff_eq] at named
      have otherKept : other ∈ kept := by
        rw [← settled.kept]
        refine List.mem_filter.mpr ⟨by simp [entries], ?_⟩
        simpa [Variable.isKept, named.1] using inTable.2
      have otherLevel : other.level = entry.level := by
        have otherPrivate : other.has Variable.privateMark = true := by
          rw [Variable.has, marked other otherKept]
          decide
        simpa [Variable.isSeenFrom, otherPrivate] using named.2
      obtain rfl := unique other otherKept entry member named.1 otherLevel
      exact ⟨front, behind, congrArg Variables.mk entries, rfl⟩

/-- What a call keeps can be taken. -/
theorem take (settled : table.IsSettled names kept depth free) (marked : Marked kept)
    (unique : ∀ first ∈ kept, ∀ second ∈ kept,
      first.name = second.name → first.level = second.level → first = second)
    (member : entry ∈ kept) :
    ∃ after front behind, table.purge entry.name entry.level = some (entry, after) ∧
      kept = front ++ entry :: behind ∧ after.IsSettled names (front ++ behind) depth free := by
  obtain ⟨front, behind, rfl, found⟩ := settled.exists_lookup_kept marked unique member
  have isKept : entry.isKept names = true := by
    rw [← settled.kept] at member
    exact (List.mem_filter.mp member).2
  refine ⟨Variables.removeAt ⟨front ++ entry :: behind⟩ front.length,
    front.filter (Variable.isKept names), behind.filter (Variable.isKept names), ?_, ?_, ?_⟩
  · simp only [Variables.purge, found, get?, Option.bind_eq_bind, Option.bind_some,
      List.getElem?_append_right le_rfl, Nat.sub_self, List.getElem?_cons_zero, beq_self_eq_true,
      Bool.or_true, if_true]
    rfl
  · rw [← settled.kept, List.filter_append, List.filter_cons_of_pos isKept]
  · rw [← List.filter_append]
    exact settled.removeAt_kept (marked.hidesNothing entry member)

end IsSettled

end Variables

end Keystroke
