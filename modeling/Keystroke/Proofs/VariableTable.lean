import Mathlib
import Keystroke.Variables

/-!
# The table of variables by names

Read name by name, the table is a stack of bindings for every name: the innermost binding is the last
entry of the name and the only one in view, and each binding behind the first hides the one in front of
it. The operations of the table change the bindings of one name and leave all other names alone.
-/

namespace Keystroke

/-! ## The last item with a property -/

section LastIndex

variable {α : Type} {property : α → Bool}

theorem lastIndex?_eq_none {items : List α} :
    lastIndex? property items = none ↔ ∀ item ∈ items, property item = false := by
  induction items with
  | nil => simp [lastIndex?]
  | cons item items ih =>
      rw [lastIndex?]
      cases last : lastIndex? property items with
      | none =>
          have noneBehind := ih.mp last
          cases holds : property item <;> simp_all
      | some index =>
          have someBehind : ¬∀ item ∈ items, property item = false := by
            rw [← ih, last]
            simp
          simp only [List.forall_mem_cons, someBehind, and_false, reduceCtorEq]

theorem lastIndex?_append_cons {front behind : List α} {item : α} (holds : property item = true)
    (last : ∀ later ∈ behind, property later = false) :
    lastIndex? property (front ++ item :: behind) = some front.length := by
  induction front with
  | nil => simp [lastIndex?, lastIndex?_eq_none.mpr last, holds]
  | cons first front ih => simp [lastIndex?, ih]

theorem exists_split_of_lastIndex? {items : List α} {index : Nat}
    (found : lastIndex? property items = some index) :
    ∃ front item behind, items = front ++ item :: behind ∧ front.length = index ∧
      property item = true ∧ ∀ later ∈ behind, property later = false := by
  induction items generalizing index with
  | nil => cases found
  | cons first rest ih =>
      rw [lastIndex?] at found
      cases last : lastIndex? property rest with
      | some further =>
          obtain ⟨front, item, behind, rfl, rfl, holds, noneBehind⟩ := ih last
          rw [last] at found
          exact ⟨first :: front, item, behind, rfl, Option.some.inj found, holds, noneBehind⟩
      | none =>
          cases holds : property first with
          | false => simp [last, holds] at found
          | true =>
              simp only [last, holds, if_true, Option.some.injEq] at found
              exact ⟨[], first, rest, rfl, found, holds, lastIndex?_eq_none.mp last⟩

theorem lastIndex?_congr {other : α → Bool} {items : List α}
    (same : ∀ item ∈ items, property item = other item) :
    lastIndex? property items = lastIndex? other items := by
  induction items with
  | nil => rfl
  | cons item items ih =>
      rw [lastIndex?, lastIndex?, ih fun later member => same later (List.mem_cons_of_mem _ member),
        same item List.mem_cons_self]

/-- The last item that a filter keeps, between all items in front of it and behind it. -/
theorem exists_split_of_filter {items kept : List α} {last : α}
    (filtered : items.filter property = kept ++ [last]) :
    ∃ front behind, items = front ++ last :: behind ∧ front.filter property = kept ∧
      ∀ later ∈ behind, property later = false := by
  obtain ⟨first, second, rfl, filterFirst, filterSecond⟩ := List.filter_eq_append_iff.mp filtered
  obtain ⟨between, behind, rfl, noneBetween, -, noneBehind⟩ :=
    List.filter_eq_cons_iff.mp filterSecond
  refine ⟨first ++ between, behind, (List.append_assoc ..).symm, ?_, ?_⟩
  · rw [List.filter_append, filterFirst, List.filter_eq_nil_iff.mpr noneBetween, List.append_nil]
  · simpa using List.filter_eq_nil_iff.mp noneBehind

end LastIndex

namespace Variables

theorem modify_append_cons (front behind : List Variable) (entry : Variable)
    (change : Variable → Variable) :
    (⟨front ++ entry :: behind⟩ : Variables).modify front.length change =
      ⟨front ++ change entry :: behind⟩ := by
  rw [modify, List.modify_eq_set_getElem?]
  simp

theorem inLevelOrder_iff {entries : List Variable} :
    inLevelOrder entries = true ↔ entries.Pairwise fun older newer => older.level ≤ newer.level := by
  induction entries with
  | nil => simp [inLevelOrder]
  | cons first rest ih =>
      cases rest with
      | nil => simp [inLevelOrder]
      | cons second rest =>
          rw [inLevelOrder, Bool.and_eq_true, decide_eq_true_eq, ih, List.pairwise_cons (a := first)]
          constructor
          · rintro ⟨le, ordered⟩
            refine ⟨?_, ordered⟩
            intro entry member
            rcases List.mem_cons.mp member with rfl | member
            · exact le
            · exact le_trans le (List.rel_of_pairwise_cons ordered member)
          · rintro ⟨le, ordered⟩
            exact ⟨le second List.mem_cons_self, ordered⟩

theorem length_removeAt (table : Variables) {index : Nat} (bound : index < table.entries.length) :
    (table.removeAt index).entries.length = table.entries.length - 1 := by
  simp only [removeAt, List.getElem?_eq_getElem bound]
  have rest : (table.entries.eraseIdx index).length = table.entries.length - 1 := by
    simp [List.length_eraseIdx, bound]
  split
  · split
    · simp [modify, rest]
    · exact rest
  · exact rest

/-! ## The entries besides those of a name at a level -/

/-- The entries besides those of a name at a level. Which others of the name are hidden does not
count. -/
def besides (table : Variables) (name : List UInt8) (level : Int) : List Variable :=
  (table.entries.filter fun entry => entry.name != name || entry.level != level).map fun entry =>
    if entry.name = name then { entry with marks := entry.marks &&& ~~~Variable.hiddenMark } else entry

section Besides

variable {name : List UInt8} {level : Int}

theorem besides_append_cons {front behind : List Variable} {entry : Variable}
    (sameName : entry.name = name) (sameLevel : entry.level = level) :
    besides ⟨front ++ entry :: behind⟩ name level = besides ⟨front ++ behind⟩ name level := by
  simp [besides, sameName, sameLevel]

theorem besides_hide {front behind : List Variable} {entry : Variable} (sameName : entry.name = name) :
    besides ⟨front ++ { entry with marks := entry.marks ||| Variable.hiddenMark } :: behind⟩ name
        level =
      besides ⟨front ++ entry :: behind⟩ name level := by
  have marks : (entry.marks ||| Variable.hiddenMark) &&& ~~~Variable.hiddenMark =
      entry.marks &&& ~~~Variable.hiddenMark := by
    apply UInt8.toBitVec_inj.mp
    ext index bound
    simp [Variable.hiddenMark]
    grind
  by_cases sameLevel : entry.level = level <;>
    simp [besides, sameName, sameLevel, marks]

theorem besides_unhide {front behind : List Variable} {entry : Variable}
    (sameName : entry.name = name) :
    besides ⟨front ++ { entry with marks := entry.marks &&& ~~~Variable.hiddenMark } :: behind⟩ name
        level =
      besides ⟨front ++ entry :: behind⟩ name level := by
  have marks : entry.marks &&& ~~~Variable.hiddenMark &&& ~~~Variable.hiddenMark =
      entry.marks &&& ~~~Variable.hiddenMark := by
    rw [UInt8.and_assoc, UInt8.and_self]
  by_cases sameLevel : entry.level = level <;>
    simp [besides, sameName, sameLevel, marks]

theorem besides_removeAt {front behind : List Variable} {entry : Variable}
    (sameName : entry.name = name) (sameLevel : entry.level = level) :
    (removeAt ⟨front ++ entry :: behind⟩ front.length).besides name level =
      besides ⟨front ++ entry :: behind⟩ name level := by
  have rest : (front ++ entry :: behind).eraseIdx front.length = front ++ behind := by
    rw [List.eraseIdx_append_of_length_le le_rfl]
    simp
  rw [besides_append_cons sameName sameLevel, removeAt]
  simp only [List.getElem?_append_right le_rfl, Nat.sub_self, List.getElem?_cons_zero, rest,
    List.take_left]
  split
  · split
    · next older found =>
        obtain ⟨upTo, hidden, later, rfl, rfl, isHidden, -⟩ := exists_split_of_lastIndex? found
        simp only [Bool.and_eq_true, beq_iff_eq] at isHidden
        rw [List.append_assoc, List.cons_append, modify_append_cons]
        exact besides_unhide (isHidden.1.trans sameName)
    · rfl
  · rfl

/-- A purge takes away what a name means at a level if that is at the level. -/
theorem purge_eq_some {table : Variables} {entry : Variable}
    (found : (table.lookup? name level).bind table.get? = some entry)
    (sameLevel : entry.level = level) :
    ∃ after, table.purge name level = some (entry, after) ∧
      after.besides name level = table.besides name level := by
  obtain ⟨index, looked, got⟩ := Option.bind_eq_some_iff.mp found
  obtain ⟨front, item, behind, entries, rfl, isNamed, -⟩ := exists_split_of_lastIndex? looked
  obtain rfl : item = entry := by simpa [get?, entries] using got
  simp only [Bool.and_eq_true, beq_iff_eq] at isNamed
  refine ⟨table.removeAt front.length, ?_, ?_⟩
  · simp [purge, looked, got, sameLevel]
  · rw [show table = ⟨table.entries⟩ from rfl, entries, besides_removeAt isNamed.1 sameLevel]

/-- After a local assignment the name means what was assigned. -/
theorem storeLocal_eq_ok {table : Variables} (allowed : Variable.checkName name = .ok ())
    (value : Value) (marks : UInt8) :
    ∃ hides after entry, table.storeLocal name value level marks = .ok (hides, after) ∧
      (after.lookup? name level).bind after.get? = some entry ∧ entry.level = level ∧
      entry.value = value ∧ after.besides name level = table.besides name level := by
  have appended : ∀ (entries : List Variable) (entry : Variable), entry.name = name →
      entry.level = level →
      (lookup? ⟨entries ++ [entry]⟩ name level).bind (get? ⟨entries ++ [entry]⟩) = some entry := by
    intro entries entry sameName sameLevel
    rw [lookup?, lastIndex?_append_cons (by simp [sameName, sameLevel, Variable.isSeenFrom])
      (by simp)]
    simp [get?]
  rw [storeLocal, allowed]
  cases found : lastIndex? (fun entry => entry.name == name) table.entries with
  | none =>
      refine ⟨_, _, _, rfl, appended _ _ rfl rfl, rfl, rfl, ?_⟩
      rw [besides_append_cons rfl rfl, List.append_nil]
  | some index =>
      obtain ⟨front, older, behind, entries, rfl, isNamed, noneBehind⟩ :=
        exists_split_of_lastIndex? found
      rw [beq_iff_eq] at isNamed
      have isOlder : table.entries[front.length]?.getD default = older := by simp [entries]
      have same : table = ⟨front ++ older :: behind⟩ := by rw [← entries]
      by_cases sameLevel : older.level = level
      · refine ⟨false, table.setValue front.length value, { older with value }, ?_, ?_, sameLevel,
          rfl, ?_⟩
        · simp [isOlder, sameLevel, bind, Except.bind, pure, Except.pure]
        · rw [same, setValue, modify_append_cons, lookup?, lastIndex?_append_cons]
          · simp [get?]
          · simp [isNamed, sameLevel, Variable.isSeenFrom]
          · intro later member
            simp [noneBehind later member]
        · have unchanged : besides ⟨front ++ { older with value } :: behind⟩ name level =
              besides ⟨front ++ behind⟩ name level := besides_append_cons isNamed sameLevel
          rw [same, setValue, modify_append_cons, besides_append_cons isNamed sameLevel, unchanged]
      · by_cases isHidden : older.has Variable.hiddenMark = true
        · refine ⟨false, ⟨table.entries ++ [⟨name, level, marks, value⟩]⟩, _, ?_,
            appended _ _ rfl rfl, rfl, rfl, ?_⟩
          · simp [isOlder, sameLevel, isHidden, bind, Except.bind, pure, Except.pure]
          · rw [besides_append_cons rfl rfl, List.append_nil]
        · refine ⟨true, ⟨(table.modify front.length fun entry =>
            { entry with marks := entry.marks ||| Variable.hiddenMark }).entries ++
              [⟨name, level, marks ||| Variable.hidingMark, value⟩]⟩, _, ?_,
            appended _ _ rfl rfl, rfl, rfl, ?_⟩
          · simp [isOlder, sameLevel, isHidden, bind, Except.bind, pure, Except.pure]
          · rw [besides_append_cons rfl rfl, List.append_nil, same, modify_append_cons]
            exact besides_hide isNamed

end Besides

/-! ## Bindings of a name -/

/-- What a name means at one level. -/
structure Binding where
  level : Int
  value : Value

/-- The marks of a binding in view, by the bindings that it hides. -/
def marksOver (outer : List Binding) : UInt8 :=
  if outer.isEmpty then 0 else Variable.hidingMark

/-- The entry of a binding in view. -/
def entryInView (name : List UInt8) (binding : Binding) (outer : List Binding) : Variable :=
  ⟨name, binding.level, marksOver outer, binding.value⟩

/-- The entry of a binding that a deeper one hides. -/
def hiddenEntry (name : List UInt8) (binding : Binding) (outer : List Binding) : Variable :=
  ⟨name, binding.level, marksOver outer ||| Variable.hiddenMark, binding.value⟩

/-- The entries of bindings that are all hidden; the innermost binding is first, its entry last. -/
def hiddenEntries (name : List UInt8) : List Binding → List Variable
  | [] => []
  | binding :: outer => hiddenEntries name outer ++ [hiddenEntry name binding outer]

/-- The entries of a name with these bindings, the innermost binding first. -/
def entriesOf (name : List UInt8) : List Binding → List Variable
  | [] => []
  | binding :: outer => hiddenEntries name outer ++ [entryInView name binding outer]

/-- What a name means after an assignment: the innermost binding has the value, or else a global. -/
def assign (value : Value) : List Binding → List Binding
  | [] => [⟨Variable.globalLevel, value⟩]
  | binding :: outer => ⟨binding.level, value⟩ :: outer

/-- What a name means after a binding at a level, by what it meant at this level and the outer ones. -/
def bindAt (level : Int) (value : Value) : List Binding → List Binding
  | [] => [⟨level, value⟩]
  | binding :: outer =>
    if binding.level = level then ⟨level, value⟩ :: outer else ⟨level, value⟩ :: binding :: outer

/-- Whether a binding at a level hides the innermost one. -/
def isShadowedAt (level : Int) : List Binding → Bool
  | [] => false
  | binding :: _ => binding.level != level

/-- What a name means after a purge at a level: the innermost binding goes if it is global or of the
level. -/
def purgeAt (level : Int) : List Binding → List Binding
  | [] => []
  | binding :: outer =>
    if binding.level = Variable.globalLevel ∨ binding.level = level then outer
    else binding :: outer

/-- A table holds for each name the entries of its bindings, in the order of levels. -/
structure Represents (table : Variables) (bindings : List UInt8 → List Binding) : Prop where
  entries : ∀ name, table.entries.filter (·.name == name) = entriesOf name (bindings name)
  ordered : table.entries.Pairwise fun older newer => older.level ≤ newer.level

theorem marksOver_eq_or (outer : List Binding) :
    outer.isEmpty = true ∧ marksOver outer = 0 ∨
      outer.isEmpty = false ∧ marksOver outer = Variable.hidingMark := by
  cases outer with
  | nil => exact .inl ⟨rfl, rfl⟩
  | cons binding outer => exact .inr ⟨rfl, rfl⟩

section Marks

variable (name : List UInt8) (binding : Binding) (outer : List Binding)

theorem entryInView_has :
    (entryInView name binding outer).has Variable.privateMark = false ∧
      (entryInView name binding outer).has Variable.hiddenMark = false ∧
      (entryInView name binding outer).has Variable.hidingMark = !outer.isEmpty := by
  simp only [entryInView, Variable.has]
  rcases marksOver_eq_or outer with ⟨empty, marks⟩ | ⟨empty, marks⟩
  all_goals
    rw [empty, marks]
    decide

theorem hiddenEntry_has :
    (hiddenEntry name binding outer).has Variable.privateMark = false ∧
      (hiddenEntry name binding outer).has Variable.hiddenMark = true := by
  simp only [hiddenEntry, Variable.has]
  rcases marksOver_eq_or outer with ⟨-, marks⟩ | ⟨-, marks⟩
  all_goals
    rw [marks]
    decide

@[simp]
theorem entryInView_name : (entryInView name binding outer).name = name :=
  rfl

@[simp]
theorem hiddenEntry_name : (hiddenEntry name binding outer).name = name :=
  rfl

/-- A hidden entry that appears again is the entry in view. -/
theorem hiddenEntry_unhide :
    { hiddenEntry name binding outer with
      marks := (hiddenEntry name binding outer).marks &&& ~~~Variable.hiddenMark } =
      entryInView name binding outer := by
  simp only [hiddenEntry, entryInView, Variable.mk.injEq, true_and, and_true]
  rcases marksOver_eq_or outer with ⟨-, marks⟩ | ⟨-, marks⟩
  all_goals
    rw [marks]
    decide

end Marks

theorem mem_hiddenEntries {name : List UInt8} {bindings : List Binding} {entry : Variable}
    (member : entry ∈ hiddenEntries name bindings) :
    entry.has Variable.privateMark = false ∧ entry.has Variable.hiddenMark = true ∧
      ⟨entry.level, entry.value⟩ ∈ bindings := by
  induction bindings with
  | nil => cases member
  | cons binding outer ih =>
      rcases List.mem_append.mp member with inner | last
      · obtain ⟨noPrivate, hidden, bound⟩ := ih inner
        exact ⟨noPrivate, hidden, List.mem_cons_of_mem _ bound⟩
      · obtain rfl := List.mem_singleton.mp last
        obtain ⟨noPrivate, hidden⟩ := hiddenEntry_has name binding outer
        exact ⟨noPrivate, hidden, List.mem_cons_self⟩

theorem mem_entriesOf {name : List UInt8} {bindings : List Binding} {entry : Variable}
    (member : entry ∈ entriesOf name bindings) :
    entry.has Variable.privateMark = false ∧ ⟨entry.level, entry.value⟩ ∈ bindings := by
  cases bindings with
  | nil => cases member
  | cons binding outer =>
      rcases List.mem_append.mp member with inner | last
      · obtain ⟨noPrivate, -, bound⟩ := mem_hiddenEntries inner
        exact ⟨noPrivate, List.mem_cons_of_mem _ bound⟩
      · obtain rfl := List.mem_singleton.mp last
        exact ⟨(entryInView_has name binding outer).1, List.mem_cons_self⟩

theorem filter_hiddenEntries (name : List UInt8) (outer : List Binding) (level : Int) :
    (hiddenEntries name outer).filter
      (fun entry => !entry.has Variable.hiddenMark && entry.isSeenFrom level) = [] := by
  apply List.filter_eq_nil_iff.mpr
  intro entry member
  simp [(mem_hiddenEntries member).2.1]

/-- The entries of a name have the levels of its bindings. -/
theorem map_level_hiddenEntries (name : List UInt8) (outer : List Binding) :
    (hiddenEntries name outer).map (·.level) = (outer.map (·.level)).reverse := by
  induction outer with
  | nil => rfl
  | cons binding outer ih => simp [hiddenEntries, ih, hiddenEntry]

theorem map_level_entriesOf (name : List UInt8) (outer : List Binding) :
    (entriesOf name outer).map (·.level) = (outer.map (·.level)).reverse := by
  cases outer with
  | nil => rfl
  | cons binding outer => simp [entriesOf, map_level_hiddenEntries, entryInView]

/-! ## Entries by name -/

theorem pairwise_of_map_level_eq {entries others : List Variable}
    (same : others.map (·.level) = entries.map (·.level))
    (ordered : entries.Pairwise fun older newer => older.level ≤ newer.level) :
    others.Pairwise fun older newer => older.level ≤ newer.level := by
  have levels : (entries.map (·.level)).Pairwise (· ≤ ·) := List.pairwise_map.mpr ordered
  rw [← same] at levels
  exact List.pairwise_map.mp levels

namespace Represents

variable {table : Variables} {bindings : List UInt8 → List Binding}

theorem mem (represents : Represents table bindings) {entry : Variable}
    (member : entry ∈ table.entries) :
    entry.has Variable.privateMark = false ∧ ⟨entry.level, entry.value⟩ ∈ bindings entry.name := by
  have member : entry ∈ entriesOf entry.name (bindings entry.name) := by
    rw [← represents.entries entry.name]
    exact List.mem_filter.mpr ⟨member, beq_self_eq_true _⟩
  exact mem_entriesOf member

/-- Where the innermost binding of a name stands in the table. -/
theorem exists_split (represents : Represents table bindings) {name : List UInt8}
    {binding : Binding} {outer : List Binding} (bound : bindings name = binding :: outer) :
    ∃ front behind, table.entries = front ++ entryInView name binding outer :: behind ∧
      front.filter (·.name == name) = hiddenEntries name outer ∧
      ∀ entry ∈ behind, (entry.name == name) = false := by
  apply exists_split_of_filter
  rw [represents.entries, bound, entriesOf]

/-- The entries of the other names do not change with the entries of one name. -/
theorem update (represents : Represents table bindings) {name : List UInt8} {outer : List Binding}
    {changed : List Variable}
    (ofName : changed.filter (·.name == name) = entriesOf name outer)
    (ofOthers : changed.filter (·.name != name) = table.entries.filter (·.name != name))
    (ordered : changed.Pairwise fun older newer => older.level ≤ newer.level) :
    Represents ⟨changed⟩ (Function.update bindings name outer) := by
  refine ⟨?_, ordered⟩
  intro other
  by_cases same : other = name
  · subst same
    rw [Function.update_self]
    exact ofName
  · rw [Function.update_of_ne same, ← represents.entries other]
    have among : (fun entry : Variable => entry.name == other) =
        fun entry => (entry.name == other) && (entry.name != name) := by
      funext entry
      by_cases isOther : entry.name = other <;> simp [isOther, same]
    rw [among, ← List.filter_filter, ← List.filter_filter, ofOthers]

/-- A name is found at its innermost binding, from every level. -/
theorem lookup?_eq (represents : Represents table bindings) (name : List UInt8) (level : Int) :
    table.lookup? name level = lastIndex? (·.name == name) table.entries := by
  apply lastIndex?_congr
  intro entry member
  simp [Variable.isSeenFrom, (represents.mem member).1]

theorem lastIndex?_unbound (represents : Represents table bindings) {name : List UInt8}
    (unbound : bindings name = []) : lastIndex? (·.name == name) table.entries = none := by
  have entries := represents.entries name
  rw [unbound, entriesOf, List.filter_eq_nil_iff] at entries
  exact lastIndex?_eq_none.mpr fun entry member => Bool.eq_false_of_not_eq_true (entries entry member)

/-- The value of a name is that of its innermost binding. -/
theorem value?_eq (represents : Represents table bindings) (name : List UInt8) (level : Int) :
    table.value? name level = (bindings name).head?.map (·.value) := by
  rw [value?, represents.lookup?_eq]
  cases bound : bindings name with
  | nil => simp [represents.lastIndex?_unbound bound]
  | cons binding outer =>
      obtain ⟨front, behind, split, -, noneBehind⟩ := represents.exists_split bound
      rw [split, lastIndex?_append_cons (by simp) noneBehind]
      simp [get?, split, entryInView]

/-- A catalog shows of each name the innermost binding and no other. -/
theorem filter_visible (represents : Represents table bindings) (name : List UInt8) (level : Int) :
    ((table.visible level).filter (·.name == name)).map (·.value) =
      ((bindings name).head?.map (·.value)).toList := by
  rw [visible, List.filter_comm, represents.entries name]
  cases bindings name with
  | nil => rfl
  | cons binding outer =>
      obtain ⟨noPrivate, notHidden, -⟩ := entryInView_has name binding outer
      rw [entriesOf, List.filter_append, filter_hiddenEntries, List.nil_append, List.filter_cons]
      simp only [Variable.isSeenFrom, noPrivate, notHidden]
      rfl

/-- No two entries have the same name and level if no name has two bindings of a level. -/
theorem pairwise_name_or_level (represents : Represents table bindings)
    (distinct : ∀ name, ((bindings name).map (·.level)).Nodup) :
    table.entries.Pairwise fun older newer =>
      ¬(older.name = newer.name ∧ older.level = newer.level) := by
  rw [List.pairwise_iff_forall_sublist]
  rintro older newer both ⟨sameName, sameLevel⟩
  have ofName := both.filter (·.name == older.name)
  simp only [List.filter_cons, beq_self_eq_true, sameName, if_true, List.filter_nil] at ofName
  rw [represents.entries] at ofName
  have levels := ofName.map (·.level)
  rw [map_level_entriesOf] at levels
  have nodup := (List.nodup_reverse.mpr (distinct newer.name)).sublist levels
  simp [sameLevel] at nodup

/-! ## Changes of one name -/

/-- Replacing the value of the entry in view. -/
theorem setValue (represents : Represents table bindings) {name : List UInt8} {binding : Binding}
    {outer : List Binding} (bound : bindings name = binding :: outer) (value : Value) :
    ∃ index, lastIndex? (·.name == name) table.entries = some index ∧
      table.get? index = some (entryInView name binding outer) ∧
      Represents (table.setValue index value)
        (Function.update bindings name (⟨binding.level, value⟩ :: outer)) := by
  obtain ⟨front, behind, split, ofFront, noneBehind⟩ := represents.exists_split bound
  have noName : behind.filter (·.name == name) = [] := by
    simpa using noneBehind
  refine ⟨front.length, ?_, by simp [get?, split], ?_⟩
  · rw [split]
    exact lastIndex?_append_cons (by simp) noneBehind
  · have changed : table.setValue front.length value =
        ⟨front ++ entryInView name ⟨binding.level, value⟩ outer :: behind⟩ := by
      rw [show table = ⟨table.entries⟩ from rfl, split, Variables.setValue, modify_append_cons]
      rfl
    rw [changed]
    apply represents.update
    · simp [List.filter_append, ofFront, noName, entriesOf, entryInView]
    · simp [split]
    · apply pairwise_of_map_level_eq _ represents.ordered
      simp [split, entryInView]

theorem pairwise_append_deepest {entries : List Variable} {last : Variable}
    (ordered : entries.Pairwise fun older newer => older.level ≤ newer.level)
    (deepest : ∀ entry ∈ entries, entry.level ≤ last.level) :
    (entries ++ [last]).Pairwise fun older newer => older.level ≤ newer.level := by
  simpa [List.pairwise_append, ordered] using deepest

/-- Hiding the entry in view behind a new one at the end of the table. -/
theorem shadow (represents : Represents table bindings) {name : List UInt8} {binding : Binding}
    {outer : List Binding} (bound : bindings name = binding :: outer) {level : Int}
    (deepest : ∀ entry ∈ table.entries, entry.level ≤ level) (value : Value) :
    ∃ index, lastIndex? (·.name == name) table.entries = some index ∧
      table.get? index = some (entryInView name binding outer) ∧
      Represents
        ⟨(table.modify index fun entry =>
            { entry with marks := entry.marks ||| Variable.hiddenMark }).entries ++
          [⟨name, level, Variable.hidingMark, value⟩]⟩
        (Function.update bindings name (⟨level, value⟩ :: binding :: outer)) := by
  obtain ⟨front, behind, split, ofFront, noneBehind⟩ := represents.exists_split bound
  have noName : behind.filter (·.name == name) = [] := by
    simpa using noneBehind
  refine ⟨front.length, ?_, by simp [get?, split], ?_⟩
  · rw [split]
    exact lastIndex?_append_cons (by simp) noneBehind
  · have hidden : table.modify front.length (fun entry =>
          { entry with marks := entry.marks ||| Variable.hiddenMark }) =
        ⟨front ++ hiddenEntry name binding outer :: behind⟩ := by
      rw [show table = ⟨table.entries⟩ from rfl, split, modify_append_cons]
      rfl
    rw [hidden]
    apply represents.update
    · simp [List.filter_append, ofFront, noName, entriesOf, hiddenEntries, entryInView, marksOver]
    · simp [split]
    · let last : Variable := ⟨name, level, Variable.hidingMark, value⟩
      have ordered : (table.entries ++ [last]).Pairwise
          fun older newer => older.level ≤ newer.level :=
        pairwise_append_deepest represents.ordered deepest
      apply pairwise_of_map_level_eq _ ordered
      simp [last, split, entryInView, hiddenEntry]

/-- Removing the entry in view; what it hid is in view again. -/
theorem removeInnermost (represents : Represents table bindings) {name : List UInt8}
    {binding : Binding} {outer : List Binding} (bound : bindings name = binding :: outer) :
    ∃ index, lastIndex? (·.name == name) table.entries = some index ∧
      table.get? index = some (entryInView name binding outer) ∧
      Represents (table.removeAt index) (Function.update bindings name outer) := by
  obtain ⟨front, behind, split, ofFront, noneBehind⟩ := represents.exists_split bound
  have noName : behind.filter (·.name == name) = [] := by
    simpa using noneBehind
  have found : table.entries[front.length]? = some (entryInView name binding outer) := by
    simp [split]
  have rest : table.entries.eraseIdx front.length = front ++ behind := by
    rw [split, List.eraseIdx_append_of_length_le le_rfl]
    simp
  have ordered : (front ++ behind).Pairwise fun older newer => older.level ≤ newer.level := by
    rw [← rest]
    exact represents.ordered.sublist (List.eraseIdx_sublist ..)
  refine ⟨front.length, ?_, found, ?_⟩
  · rw [split]
    exact lastIndex?_append_cons (by simp) noneBehind
  · obtain ⟨-, -, hides⟩ := entryInView_has name binding outer
    simp only [removeAt, found, hides, rest]
    cases outer with
    | nil =>
        apply represents.update
        · simp [List.filter_append, ofFront, noName, hiddenEntries, entriesOf]
        · simp [split]
        · exact ordered
    | cons next outer =>
        obtain ⟨upTo, later, split', ofUpTo, noneLater⟩ := exists_split_of_filter ofFront
        subst split'
        have nameLater : later.filter (·.name == name) = [] := by
          simpa using noneLater
        have lastHidden : lastIndex? (fun entry : Variable => entry.name ==
            (entryInView name binding (next :: outer)).name && entry.has Variable.hiddenMark)
            (table.entries.take (upTo ++ hiddenEntry name next outer :: later).length) =
            some upTo.length := by
          rw [split, List.take_left]
          apply lastIndex?_append_cons
          · simp [(hiddenEntry_has name next outer).2]
          · intro entry member
            simp [noneLater entry member]
        simp only [List.isEmpty_cons, Bool.not_false, if_true, lastHidden]
        rw [List.append_assoc, List.cons_append, modify_append_cons, hiddenEntry_unhide]
        apply represents.update
        · simp [List.filter_append, ofUpTo, noName, nameLater, entriesOf]
        · simp [split]
        · apply pairwise_of_map_level_eq _ ordered
          simp [entryInView, hiddenEntry]

/-! ## The operations -/

theorem insertGlobal (represents : Represents table bindings) {name : List UInt8}
    (unbound : bindings name = []) (value : Value) (lowest : ∀ entry ∈ table.entries,
      Variable.globalLevel ≤ entry.level) :
    Represents (table.insertGlobal name value)
      (Function.update bindings name [⟨Variable.globalLevel, value⟩]) := by
  have entries := represents.entries name
  rw [unbound, entriesOf] at entries
  have parts := List.takeWhile_append_dropWhile (p := Variable.isGlobal) (l := table.entries)
  apply represents.update
  · rw [← parts, List.filter_append] at entries
    obtain ⟨noneFront, noneBehind⟩ := List.append_eq_nil_iff.mp entries
    rw [List.filter_append, List.filter_cons_of_pos (by simp), noneFront, noneBehind]
    rfl
  · conv_rhs => rw [← parts]
    simp [-List.takeWhile_append_dropWhile]
  · have ordered := represents.ordered
    rw [← parts, List.pairwise_append] at ordered
    obtain ⟨front, behind, -⟩ := ordered
    have isGlobal : ∀ entry ∈ table.entries.takeWhile Variable.isGlobal,
        entry.level = Variable.globalLevel := fun entry member => by
      simpa [Variable.isGlobal] using List.mem_takeWhile_imp member
    have lowestBehind : ∀ entry ∈ table.entries.dropWhile Variable.isGlobal,
        Variable.globalLevel ≤ entry.level := fun entry member =>
      lowest entry (List.dropWhile_subset _ member)
    refine List.pairwise_append.mpr ⟨front, List.pairwise_cons.mpr ⟨lowestBehind, behind⟩, ?_⟩
    intro older member newer later
    rw [isGlobal older member]
    rcases List.mem_cons.mp later with rfl | later
    · exact le_rfl
    · exact lowestBehind newer later

/-- An assignment replaces the value of the innermost binding, or else makes a global one. -/
theorem store (represents : Represents table bindings) {name : List UInt8}
    (allowed : Variable.checkName name = .ok ()) (value : Value) (level : Int)
    (lowest : ∀ entry ∈ table.entries, Variable.globalLevel ≤ entry.level) :
    ∃ after, table.store name value level = .ok after ∧
      Represents after (Function.update bindings name (assign value (bindings name))) := by
  rw [Variables.store, allowed, represents.lookup?_eq]
  cases bound : bindings name with
  | nil =>
      rw [represents.lastIndex?_unbound bound]
      exact ⟨_, rfl, represents.insertGlobal bound value lowest⟩
  | cons binding outer =>
      obtain ⟨index, found, -, after⟩ := represents.setValue bound value
      rw [found]
      exact ⟨_, rfl, after⟩

/-- A local assignment replaces the value of a binding of the level, or hides a binding of an outer
one. -/
theorem storeLocal (represents : Represents table bindings) {name : List UInt8}
    (allowed : Variable.checkName name = .ok ()) (value : Value) {level : Int}
    (deepest : ∀ entry ∈ table.entries, entry.level ≤ level) :
    ∃ after, table.storeLocal name value level 0 =
        .ok (isShadowedAt level (bindings name), after) ∧
      Represents after (Function.update bindings name (bindAt level value (bindings name))) := by
  rw [Variables.storeLocal, allowed]
  cases bound : bindings name with
  | nil =>
      rw [represents.lastIndex?_unbound bound]
      have entries := represents.entries name
      rw [bound, entriesOf] at entries
      refine ⟨_, rfl, represents.update ?_ ?_ ?_⟩
      · simp [entries, bindAt, entriesOf, hiddenEntries, entryInView, marksOver]
      · simp
      · exact pairwise_append_deepest represents.ordered deepest
  | cons binding outer =>
      by_cases sameLevel : binding.level = level
      · obtain ⟨index, found, entry, after⟩ := represents.setValue bound value
        subst sameLevel
        refine ⟨_, ?_, by simpa [bindAt] using after⟩
        rw [get?] at entry
        simp [found, entry, entryInView, isShadowedAt, bind, Except.bind, pure, Except.pure]
      · obtain ⟨index, found, entry, after⟩ := represents.shadow bound deepest value
        have notHidden := (entryInView_has name binding outer).2.1
        refine ⟨_, ?_, by simpa [bindAt, sameLevel] using after⟩
        rw [get?] at entry
        simp only [found, List.getD_eq_getElem?_getD, entry, Option.getD_some, notHidden]
        simp [entryInView, sameLevel, isShadowedAt, bind, Except.bind, pure, Except.pure]

/-- A purge removes the innermost binding of a name if that is global or of the level. -/
theorem purge (represents : Represents table bindings) (name : List UInt8) (level : Int) :
    Represents ((table.purge name level).elim table (·.2))
      (Function.update bindings name (purgeAt level (bindings name))) := by
  rw [Variables.purge, represents.lookup?_eq]
  cases bound : bindings name with
  | nil =>
      rw [represents.lastIndex?_unbound bound, purgeAt, ← bound, Function.update_eq_self]
      exact represents
  | cons binding outer =>
      obtain ⟨index, found, entry, after⟩ := represents.removeInnermost bound
      by_cases goes : binding.level = Variable.globalLevel ∨ binding.level = level
      · simp [found, entry, entryInView, Variable.isGlobal, purgeAt, goes, after]
      · rw [purgeAt, if_neg goes, ← bound, Function.update_eq_self]
        simpa [found, entry, entryInView, Variable.isGlobal, goes] using represents

/-- Without entries of a level there are no bindings of it. -/
theorem dropWhile_eq_self (represents : Represents table bindings) {level : Int}
    (below : ∀ entry ∈ table.entries, entry.level < level) (name : List UInt8) :
    (bindings name).dropWhile (fun binding => level ≤ binding.level) = bindings name := by
  cases bound : bindings name with
  | nil => rfl
  | cons binding outer =>
      obtain ⟨front, behind, split, -⟩ := represents.exists_split bound
      have isBelow := below (entryInView name binding outer) (by simp [split])
      rw [entryInView] at isBelow
      rw [List.dropWhile_cons_of_neg]
      simpa using isBelow

/-- The last entry of a table is the innermost binding of its name. -/
theorem exists_binding_of_last (represents : Represents table bindings) {init : List Variable}
    {last : Variable} (entries : table.entries = init ++ [last]) :
    ∃ binding outer, bindings last.name = binding :: outer ∧ binding.level = last.level ∧
      lastIndex? (·.name == last.name) table.entries = some (table.entries.length - 1) := by
  have found : lastIndex? (·.name == last.name) table.entries =
      some (table.entries.length - 1) := by
    rw [entries, lastIndex?_append_cons (by simp) (by simp)]
    simp
  cases bound : bindings last.name with
  | nil =>
      rw [represents.lastIndex?_unbound bound] at found
      cases found
  | cons binding outer =>
      have ofName := represents.entries last.name
      rw [bound, entries, List.filter_append, entriesOf] at ofName
      obtain ⟨-, isLast⟩ := List.append_inj' ofName (by simp)
      refine ⟨binding, outer, rfl, ?_, found⟩
      simp only [List.filter_cons, beq_self_eq_true, if_true, List.filter_nil,
        List.cons.injEq, and_true] at isLast
      rw [isLast]
      rfl

theorem purgeFromLevel_go (represents : Represents table bindings) {level : Int}
    (isLocal : Variable.globalLevel < level) {fuel : Nat} (count : Nat)
    (enough : table.entries.length ≤ fuel) :
    Represents (Variables.purgeFromLevel.go level fuel count table).2
      fun name => (bindings name).dropWhile (fun binding => level ≤ binding.level) := by
  induction fuel generalizing table bindings count with
  | zero =>
      have empty : table.entries = [] := List.eq_nil_of_length_eq_zero (by omega)
      rw [Variables.purgeFromLevel.go, funext (represents.dropWhile_eq_self (by simp [empty]))]
      exact represents
  | succ fuel ih =>
      rw [Variables.purgeFromLevel.go]
      rcases List.eq_nil_or_concat table.entries with empty | ⟨init, last, entries⟩
      · have below : ∀ entry ∈ table.entries, entry.level < level := by simp [empty]
        rw [funext (represents.dropWhile_eq_self below)]
        simpa [empty] using represents
      · rw [List.concat_eq_append] at entries
        have isLast : table.entries.getLast? = some last := by simp [entries]
        simp only [isLast]
        split
        · next stops =>
            have lastBelow : last.level < level := by
              simp only [Variable.isGlobal, Bool.or_eq_true, decide_eq_true_eq, beq_iff_eq] at stops
              omega
            have below : ∀ entry ∈ table.entries, entry.level < level := by
              have ordered := represents.ordered
              rw [entries, List.pairwise_append] at ordered
              intro entry member
              rw [entries] at member
              rcases List.mem_append.mp member with inner | isLast
              · exact lt_of_le_of_lt (ordered.2.2 entry inner last (by simp)) lastBelow
              · rwa [List.mem_singleton.mp isLast]
            rw [funext (represents.dropWhile_eq_self below)]
            exact represents
        · next goes =>
            obtain ⟨binding, outer, bound, sameLevel, found⟩ :=
              represents.exists_binding_of_last entries
            obtain ⟨index, found', -, after⟩ := represents.removeInnermost bound
            obtain rfl : table.entries.length - 1 = index := by simpa [found] using found'
            have goes' : level ≤ binding.level := by
              simp only [Bool.or_eq_true, decide_eq_true_eq, not_or, not_lt] at goes
              omega
            have nonempty : 0 < table.entries.length := by simp [entries]
            have shorter := length_removeAt table (Nat.sub_lt nonempty one_pos)
            have rest := ih after (count + 1) (by omega)
            have same : (fun name => (Function.update bindings last.name outer name).dropWhile
                  fun binding => level ≤ binding.level) =
                fun name => (bindings name).dropWhile fun binding => level ≤ binding.level := by
              funext name
              by_cases isLast : name = last.name
              · subst isLast
                rw [Function.update_self, bound, List.dropWhile_cons_of_pos (by simpa using goes')]
              · rw [Function.update_of_ne isLast]
            rwa [same] at rest

/-- Removing the locals of a level and of all deeper ones removes their bindings. -/
theorem purgeFromLevel (represents : Represents table bindings) {level : Int}
    (isLocal : Variable.globalLevel < level) :
    Represents (table.purgeFromLevel level).2
      fun name => (bindings name).dropWhile (fun binding => level ≤ binding.level) :=
  represents.purgeFromLevel_go isLocal 0 le_rfl

end Represents

end Variables

end Keystroke
