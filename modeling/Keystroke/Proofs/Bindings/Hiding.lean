import Mathlib
import Keystroke.Proofs.Bindings.Made
import Keystroke.Proofs.Calls.Table

/-!
# What hides what

In every table that a machine makes, an entry outside of what calls keep is hidden just if the next later
entry of its name hides it. Globals hide nothing, so when the locals are gone nothing is hidden.
-/

namespace Keystroke

open Machine (packageName parkedEditorName keptMarks)
open Variable (globalLevel hiddenMark hidingMark privateMark)

/-! ## Marks -/

namespace Variable

variable {entry : Variable}

/-- The variable as it is when nothing hides it. -/
def unhidden (entry : Variable) : Variable := { entry with marks := entry.marks &&& ~~~hiddenMark }

/-- The variable as it is when something hides it. -/
def covered (entry : Variable) : Variable := { entry with marks := entry.marks ||| hiddenMark }

/-- What becomes of the marks when one of them is set or taken away. -/
theorem marks_changed (marks : UInt8) :
    ((marks ||| hiddenMark) &&& hiddenMark != 0) = true ∧
      ((marks ||| hiddenMark) &&& hidingMark != 0) = (marks &&& hidingMark != 0) ∧
      ((marks ||| hiddenMark) &&& privateMark != 0) = (marks &&& privateMark != 0) ∧
      ((marks &&& ~~~hiddenMark) &&& hiddenMark != 0) = false ∧
      ((marks &&& ~~~hiddenMark) &&& hidingMark != 0) = (marks &&& hidingMark != 0) ∧
      ((marks &&& ~~~hiddenMark) &&& privateMark != 0) = (marks &&& privateMark != 0) ∧
      (marks &&& ~~~hiddenMark) &&& ~~~hiddenMark = marks &&& ~~~hiddenMark ∧
      ((marks &&& hiddenMark != 0) = false → marks &&& ~~~hiddenMark = marks) := by
  obtain ⟨⟨⟨number, bound⟩⟩⟩ := marks
  revert number
  decide +kernel

@[simp]
theorem has_hiddenMark_unhidden : entry.unhidden.has hiddenMark = false :=
  (marks_changed entry.marks).2.2.2.1

@[simp]
theorem has_hidingMark_unhidden : entry.unhidden.has hidingMark = entry.has hidingMark :=
  (marks_changed entry.marks).2.2.2.2.1

@[simp]
theorem has_privateMark_unhidden : entry.unhidden.has privateMark = entry.has privateMark :=
  (marks_changed entry.marks).2.2.2.2.2.1

@[simp]
theorem has_hiddenMark_covered : entry.covered.has hiddenMark = true :=
  (marks_changed entry.marks).1

@[simp]
theorem has_hidingMark_covered : entry.covered.has hidingMark = entry.has hidingMark :=
  (marks_changed entry.marks).2.1

@[simp]
theorem has_privateMark_covered : entry.covered.has privateMark = entry.has privateMark :=
  (marks_changed entry.marks).2.2.1

@[simp]
theorem unhidden_unhidden : entry.unhidden.unhidden = entry.unhidden :=
  congrArg (fun marks => { entry with marks }) (marks_changed entry.marks).2.2.2.2.2.2.1

@[simp]
theorem has_zero {name : List UInt8} {level : Int} {value : Value} (mark : UInt8) :
    has ⟨name, level, 0, value⟩ mark = false := by
  simp [has]

/-- Only locals hide something, and only what calls keep is private. -/
structure IsProper (entry : Variable) : Prop where
  isLocal : entry.has hidingMark = true → entry.level ≠ globalLevel
  seen : entry.name ∉ reservedNames → entry.has privateMark = false

theorem IsProper.covered (proper : entry.IsProper) : entry.covered.IsProper :=
  ⟨fun hides => proper.isLocal (has_hidingMark_covered ▸ hides),
    fun unreserved => has_privateMark_covered.trans (proper.seen unreserved)⟩

theorem IsProper.unhidden (proper : entry.IsProper) : entry.unhidden.IsProper :=
  ⟨fun hides => proper.isLocal (has_hidingMark_unhidden ▸ hides),
    fun unreserved => has_privateMark_unhidden.trans (proper.seen unreserved)⟩

theorem isProper_of_plain (plain : entry.marks = 0) : entry.IsProper :=
  ⟨fun hides => by simp [has, plain] at hides, fun _ => by simp [has, plain]⟩

/-- What a store in a call makes. -/
theorem isProper_local {name : List UInt8} {depth : Nat} {marks : UInt8} {value : Value}
    (harmless : name ∉ reservedNames → marks = 0 ∨ marks = hidingMark) :
    IsProper ⟨name, depth, marks, value⟩ := by
  constructor
  · intro _
    show (depth : Int) ≠ globalLevel
    rw [globalLevel]
    omega
  · intro unreserved
    show (marks &&& privateMark != 0) = false
    rcases harmless unreserved with rfl | rfl <;> decide

theorem IsProper.of_heading {other : Variable} (proper : entry.IsProper) (same : entry.heading = other.heading) :
    other.IsProper := by
  have named : entry.name = other.name := congrArg (·.1) same
  have level : entry.level = other.level := congrArg (·.2.1) same
  have marks : entry.marks = other.marks := congrArg (·.2.2) same
  constructor
  · intro hides
    exact level ▸ proper.isLocal (by rwa [has, marks])
  · intro unreserved
    rw [has, ← marks]
    exact proper.seen (named ▸ unreserved)

/-- Nothing is taken away from a variable in view. -/
theorem unhidden_of_shown (shown : entry.has hiddenMark = false) : entry.unhidden = entry :=
  congrArg (fun marks => { entry with marks }) ((marks_changed entry.marks).2.2.2.2.2.2.2 shown)

end Variable

/-! ## Chains -/

namespace Variables

/-- Of the entries of a name, the latest first, just those are hidden that the next later one hides. -/
def Chains (hidden : Bool) : List Variable → Prop
  | [] => hidden = false
  | entry :: older => entry.has hiddenMark = hidden ∧ Chains (entry.has hidingMark) older

/-- The entries of a name, the oldest first. -/
def ofName (name : List UInt8) (entries : List Variable) : List Variable :=
  entries.filter (·.name == name)

/-- A table in which just those entries are hidden that the next later entry of their name hides, apart from
what calls keep. -/
structure IsChained (table : Variables) : Prop where
  chains : ∀ name ∉ reservedNames, Chains false (ofName name table.entries).reverse
  proper : ∀ entry ∈ table.entries, entry.IsProper

section

variable {name : List UInt8} {entry : Variable} {entries front behind : List Variable}

@[simp]
theorem ofName_nil : ofName name [] = [] := rfl

@[simp]
theorem ofName_append : ofName name (front ++ behind) = ofName name front ++ ofName name behind :=
  List.filter_append ..

theorem ofName_cons_of_eq (same : entry.name = name) :
    ofName name (entry :: entries) = entry :: ofName name entries :=
  List.filter_cons_of_pos (beq_iff_eq.mpr same)

theorem ofName_cons_of_ne (other : entry.name ≠ name) : ofName name (entry :: entries) = ofName name entries :=
  List.filter_cons_of_neg (by simpa using other)

theorem ofName_eq_nil (none : ∀ entry ∈ entries, (entry.name == name) = false) : ofName name entries = [] :=
  List.filter_eq_nil_iff.mpr fun entry member => by simp [none entry member]

theorem mem_ofName : entry ∈ ofName name entries ↔ entry ∈ entries ∧ entry.name = name := by
  rw [ofName, List.mem_filter, beq_iff_eq]

/-- Chains depend on the headings alone. -/
theorem Chains.congr {hidden : Bool} {others : List Variable} (chains : Chains hidden entries)
    (same : others.map Variable.heading = entries.map Variable.heading) : Chains hidden others := by
  induction entries generalizing hidden others with
  | nil =>
      obtain rfl := List.map_eq_nil_iff.mp same
      exact chains
  | cons entry entries ih =>
      obtain ⟨isHidden, older⟩ := chains
      obtain ⟨other, rest, rfl, heading, headings⟩ := List.map_eq_cons_iff.mp same
      have marks : other.marks = entry.marks := congrArg (·.2.2) heading
      rw [Chains, Variable.has, Variable.has, marks]
      exact ⟨isHidden, ih older headings⟩

theorem map_heading_ofName (name : List UInt8) (entries : List Variable) :
    (ofName name entries).map Variable.heading =
      (entries.map Variable.heading).filter (·.1 == name) := by
  rw [List.filter_map]
  rfl

end

/-- An entry that hides something uncovers the latest hidden entry of its name when it is removed. -/
theorem removeAt_cases (front behind : List Variable) (entry : Variable) :
    (∃ upTo older later, front = upTo ++ older :: later ∧ older.name = entry.name ∧
      (∀ other ∈ later, other.name = entry.name → other.has hiddenMark = false) ∧
      entry.has hidingMark = true ∧
      removeAt ⟨front ++ entry :: behind⟩ front.length = ⟨(upTo ++ older.unhidden :: later) ++ behind⟩) ∨
    (entry.has hidingMark = true →
      ∀ other ∈ front, other.name = entry.name → other.has hiddenMark = false) ∧
      removeAt ⟨front ++ entry :: behind⟩ front.length = ⟨front ++ behind⟩ := by
  have shown {others : List Variable} (none : ∀ other ∈ others,
      (other.name == entry.name && other.has hiddenMark) = false) :
      ∀ other ∈ others, other.name = entry.name → other.has hiddenMark = false := by
    intro other member named
    simpa [named] using none other member
  rw [removeAt_append_cons]
  cases hides : entry.has hidingMark with
  | false => exact .inr ⟨fun isHiding => by simp at isHiding, rfl⟩
  | true =>
      cases found : lastIndex? (fun other => other.name == entry.name && other.has hiddenMark) front with
      | none => exact .inr ⟨fun _ => shown (lastIndex?_eq_none.mp found), rfl⟩
      | some index =>
          obtain ⟨upTo, older, later, rfl, rfl, holds, last⟩ := exists_split_of_lastIndex? found
          simp only [Bool.and_eq_true, beq_iff_eq] at holds
          refine .inl ⟨upTo, older, later, rfl, holds.1, shown last, rfl, ?_⟩
          simp only [if_true]
          rw [List.append_assoc, List.cons_append, modify_append_cons, List.append_assoc]
          rfl

/-- What a purge removes is the latest entry of the name that can be seen. -/
theorem exists_split_of_purge {table after : Variables} {name : List UInt8} {level : Int} {entry : Variable}
    (purges : table.purge name level = some (entry, after)) :
    ∃ front behind, table.entries = front ++ entry :: behind ∧ table.removeAt front.length = after ∧
      entry.name = name ∧ (entry.isGlobal = true ∨ entry.level = level) ∧
      ∀ later ∈ behind, (later.name == name && later.isSeenFrom level) = false := by
  obtain ⟨index, looked, purges⟩ := Option.bind_eq_some_iff.mp purges
  obtain ⟨found, got, purges⟩ := Option.bind_eq_some_iff.mp purges
  obtain ⟨front, item, behind, split, rfl, named, last⟩ := exists_split_of_lastIndex? looked
  split at purges
  · next allowed =>
      cases purges
      obtain rfl : item = entry := by simpa [get?, split] using got
      simp only [Bool.and_eq_true, beq_iff_eq] at named
      rw [Bool.or_eq_true, beq_iff_eq] at allowed
      exact ⟨front, behind, split, rfl, named.1, allowed, last⟩
  · cases purges

/-- What comes first in a chain is hidden as it has to be. -/
theorem Chains.head {hidden : Bool} {entries : List Variable} (chains : Chains hidden entries)
    (shown : ∀ entry ∈ entries, entry.has hiddenMark = false) : hidden = false := by
  cases entries with
  | nil => exact chains
  | cons entry older => exact chains.1.symm.trans (shown entry List.mem_cons_self)

/-- Nothing in view comes before what is hidden next. -/
theorem Chains.eq_nil_of_shown {front behind : List Variable} (chains : Chains true (front ++ behind))
    (shown : ∀ entry ∈ front, entry.has hiddenMark = false) : front = [] := by
  cases front with
  | nil => rfl
  | cons entry rest => cases chains.1.symm.trans (shown entry List.mem_cons_self)

/-! ## Operations -/

namespace IsChained

variable {table after : Variables} {name : List UInt8}

/-- An operation that changes the entries of one name. -/
theorem update (chained : table.IsChained) (name : List UInt8)
    (others : ∀ other, other ≠ name → ofName other after.entries = ofName other table.entries)
    (chains : name ∉ reservedNames → Chains false (ofName name after.entries).reverse)
    (proper : ∀ entry ∈ after.entries, entry.IsProper) : after.IsChained := by
  refine ⟨fun other unreserved => ?_, proper⟩
  by_cases same : other = name
  · exact same ▸ chains (same ▸ unreserved)
  · rw [others other same]
    exact chained.chains other unreserved

/-- Other values, or values that are read back. -/
theorem congr (chained : table.IsChained)
    (same : after.entries.map Variable.heading = table.entries.map Variable.heading) : after.IsChained := by
  refine ⟨fun name unreserved => ?_, fun read member => ?_⟩
  · refine (chained.chains name unreserved).congr ?_
    rw [List.map_reverse, List.map_reverse, map_heading_ofName, map_heading_ofName, same]
  · obtain ⟨entry, isEntry, heading⟩ := List.mem_map.mp (same ▸ List.mem_map_of_mem member)
    exact (chained.proper entry isEntry).of_heading heading

theorem setValue (chained : table.IsChained) (index : Nat) (value : Value) :
    (table.setValue index value).IsChained := by
  refine chained.congr (List.ext_getElem? fun place => ?_)
  rw [Variables.setValue, modify, List.getElem?_map, List.getElem?_map, List.getElem?_modify]
  cases table.entries[place]? with
  | none => rfl
  | some entry =>
      by_cases here : index = place
      · simp [here, Variable.heading]
      · simp [here]

/-- A new entry behind all others. -/
theorem append (chained : table.IsChained) {entry : Variable} (proper : entry.IsProper)
    (chains : entry.name ∉ reservedNames →
      Chains false (entry :: (ofName entry.name table.entries).reverse)) :
    IsChained ⟨table.entries ++ [entry]⟩ := by
  apply chained.update entry.name
  · intro other isOther
    rw [ofName_append, ofName_cons_of_ne isOther.symm, ofName_nil, List.append_nil]
  · intro unreserved
    rw [ofName_append, ofName_cons_of_eq rfl, ofName_nil, List.reverse_append]
    exact chains unreserved
  · exact List.forall_mem_append.mpr ⟨chained.proper, List.forall_mem_singleton.mpr proper⟩

/-- Without entries of a name a global one can be made. -/
theorem insertGlobal (chained : table.IsChained) (unbound : name ∉ reservedNames → ofName name table.entries = [])
    (value : Value) : (table.insertGlobal name value).IsChained := by
  have parts : table.entries.takeWhile Variable.isGlobal ++ table.entries.dropWhile Variable.isGlobal =
      table.entries := List.takeWhile_append_dropWhile
  rw [Variables.insertGlobal]
  generalize table.entries.takeWhile Variable.isGlobal = globals at parts ⊢
  generalize table.entries.dropWhile Variable.isGlobal = locals at parts ⊢
  apply chained.update name
  · intro other isOther
    rw [← parts, ofName_append, ofName_append, ofName_cons_of_ne isOther.symm]
  · intro unreserved
    have none := unbound unreserved
    rw [← parts, ofName_append, List.append_eq_nil_iff] at none
    have here : ofName name (⟨name, globalLevel, 0, value⟩ :: locals) = [⟨name, globalLevel, 0, value⟩] :=
      none.2 ▸ ofName_cons_of_eq rfl
    rw [ofName_append, none.1, here]
    exact ⟨Variable.has_zero _, Variable.has_zero _⟩
  · have older := List.forall_mem_append.mp (parts ▸ chained.proper)
    exact List.forall_mem_append.mpr
      ⟨older.1, List.forall_mem_cons.mpr ⟨Variable.isProper_of_plain rfl, older.2⟩⟩

/-- Names that no call uses can be seen from everywhere. -/
theorem lookup?_eq (chained : table.IsChained) (unreserved : name ∉ reservedNames) (level : Int) :
    table.lookup? name level = lastIndex? (·.name == name) table.entries := by
  refine lastIndex?_congr fun entry member => ?_
  by_cases named : entry.name = name
  · simp [named, Variable.isSeenFrom, (chained.proper entry member).seen (named ▸ unreserved)]
  · simp [named]

theorem store (chained : table.IsChained) {value : Value} {level : Int}
    (stores : table.store name value level = .ok after) : after.IsChained := by
  rw [Variables.store] at stores
  cases allowed : Variable.checkName name with
  | error error => simp [allowed, bind, Except.bind] at stores
  | ok =>
      simp only [allowed, bind, Except.bind] at stores
      split at stores <;> cases stores
      · exact chained.setValue _ _
      next missing =>
        refine chained.insertGlobal (fun unreserved => ofName_eq_nil ?_) value
        rw [chained.lookup?_eq unreserved] at missing
        exact lastIndex?_eq_none.mp missing

/-- The latest entry of a name is in view. -/
theorem chains_split (chained : table.IsChained) {front behind : List Variable} {entry : Variable}
    (split : table.entries = front ++ entry :: behind) (unreserved : entry.name ∉ reservedNames)
    (last : ∀ later ∈ behind, (later.name == entry.name) = false) :
    entry.has hiddenMark = false ∧
      Chains (entry.has hidingMark) (ofName entry.name front).reverse := by
  have chains := chained.chains entry.name unreserved
  rwa [split, ofName_append, ofName_cons_of_eq rfl, ofName_eq_nil last, List.reverse_append,
    List.reverse_singleton, List.singleton_append] at chains

/-- Covering the latest entry of a name by a new one. -/
theorem cover {front behind : List Variable} {older entry : Variable}
    (chained : IsChained ⟨front ++ older :: behind⟩) (sameName : older.name = entry.name)
    (last : ∀ later ∈ behind, (later.name == entry.name) = false) (proper : entry.IsProper)
    (marked : entry.name ∉ reservedNames → entry.marks = hidingMark) :
    IsChained ⟨(front ++ older.covered :: behind) ++ [entry]⟩ := by
  have coveredName : older.covered.name = entry.name := sameName
  apply chained.update entry.name
  · intro other isOther
    simp only [ofName_append, ofName_cons_of_ne (sameName ▸ isOther.symm : older.name ≠ other),
      ofName_cons_of_ne (coveredName ▸ isOther.symm : older.covered.name ≠ other),
      ofName_cons_of_ne isOther.symm, ofName_nil, List.append_nil]
  · intro unreserved
    obtain ⟨-, chains⟩ := chained.chains_split rfl (sameName ▸ unreserved) (sameName ▸ last)
    rw [ofName_append, ofName_append, ofName_cons_of_eq coveredName, ofName_eq_nil last,
      ofName_cons_of_eq rfl]
    rw [sameName] at chains
    have shown : entry.has hiddenMark = false := by rw [Variable.has, marked unreserved]; decide
    have hides : entry.has hidingMark = true := by rw [Variable.has, marked unreserved]; decide
    simpa [Chains, shown, hides] using chains
  · have earlier := List.forall_mem_append.mp chained.proper
    have later := List.forall_mem_cons.mp earlier.2
    refine List.forall_mem_append.mpr ⟨List.forall_mem_append.mpr ⟨earlier.1, ?_⟩, ?_⟩
    · exact List.forall_mem_cons.mpr ⟨later.1.covered, later.2⟩
    · exact List.forall_mem_singleton.mpr proper

theorem storeLocal (chained : table.IsChained) {value : Value} {depth : Nat} {marks : UInt8} {hides : Bool}
    (given : marks = 0 ∨ marks = keptMarks ∧ (name = packageName ∨ name = parkedEditorName))
    (stores : table.storeLocal name value depth marks = .ok (hides, after)) : after.IsChained := by
  have ordinary (unreserved : name ∉ reservedNames) : marks = 0 := by
    refine given.resolve_right fun kept => unreserved ?_
    rw [reservedNames]
    rcases kept.2 with rfl | rfl <;> simp
  have proper : Variable.IsProper ⟨name, depth, marks, value⟩ :=
    Variable.isProper_local fun unreserved => .inl (ordinary unreserved)
  rw [Variables.storeLocal] at stores
  cases allowed : Variable.checkName name with
  | error error => simp [allowed, bind, Except.bind] at stores
  | ok =>
      simp only [allowed, bind, Except.bind] at stores
      cases found : lastIndex? (fun entry => entry.name == name) table.entries with
      | none =>
          simp only [found] at stores
          cases stores
          have none := ofName_eq_nil (lastIndex?_eq_none.mp found)
          refine chained.append proper fun unreserved => ?_
          simp [none, ordinary unreserved, Chains]
      | some index =>
          obtain ⟨front, older, behind, split, rfl, named, last⟩ := exists_split_of_lastIndex? found
          obtain rfl := eq_of_beq named
          obtain rfl : table = ⟨front ++ older :: behind⟩ := congrArg Variables.mk split
          have isOlder : (front ++ older :: behind).getD front.length default = older := by simp
          simp only [found, isOlder] at stores
          split at stores
          · cases stores
            exact chained.setValue _ _
          split at stores
          · next isHidden =>
              cases stores
              refine chained.append proper fun unreserved => ?_
              have shown := (chained.chains_split rfl unreserved last).1
              rw [isHidden] at shown
              cases shown
          · cases stores
            rw [modify_append_cons]
            have marked (unreserved : older.name ∉ reservedNames) : marks ||| hidingMark = hidingMark := by
              rw [ordinary unreserved]
              rfl
            exact chained.cover rfl last (Variable.isProper_local fun unreserved => .inr (marked unreserved))
              marked

/-- When what hides an entry goes, the entry is in view. -/
theorem uncover {front later behind : List Variable} {older entry : Variable}
    (chained : IsChained ⟨(front ++ older :: later) ++ entry :: behind⟩) (sameName : older.name = entry.name)
    (last : entry.name ∉ reservedNames → ∀ other ∈ behind, (other.name == entry.name) = false)
    (shown : ∀ other ∈ later, other.name = entry.name → other.has hiddenMark = false)
    (hides : entry.has hidingMark = true) :
    IsChained ⟨(front ++ older.unhidden :: later) ++ behind⟩ := by
  have unhiddenName : older.unhidden.name = entry.name := sameName
  apply chained.update entry.name
  · intro other isOther
    simp only [ofName_append, ofName_cons_of_ne (sameName ▸ isOther.symm : older.name ≠ other),
      ofName_cons_of_ne (unhiddenName ▸ isOther.symm : older.unhidden.name ≠ other),
      ofName_cons_of_ne isOther.symm]
  · intro unreserved
    have chains := (chained.chains_split rfl unreserved (last unreserved)).2
    rw [hides, ofName_append, ofName_cons_of_eq sameName, List.reverse_append, List.reverse_cons,
      List.append_assoc] at chains
    -- The latest entry is hidden, so it is the latest hidden one.
    have noneLater : ofName entry.name later = [] := by
      refine List.reverse_eq_nil_iff.mp (chains.eq_nil_of_shown fun other member => ?_)
      obtain ⟨isLater, named⟩ := mem_ofName.mp (List.mem_reverse.mp member)
      exact shown other isLater named
    rw [noneLater] at chains
    rw [ofName_append, ofName_append, ofName_cons_of_eq unhiddenName, noneLater,
      ofName_eq_nil (last unreserved), List.append_nil, List.reverse_append]
    exact ⟨Variable.has_hiddenMark_unhidden, by simpa using chains.2⟩
  · obtain ⟨earlier, rest⟩ := List.forall_mem_append.mp chained.proper
    obtain ⟨first, following⟩ := List.forall_mem_append.mp earlier
    obtain ⟨ofOlder, ofLater⟩ := List.forall_mem_cons.mp following
    refine List.forall_mem_append.mpr ⟨List.forall_mem_append.mpr ⟨first, ?_⟩, ?_⟩
    · exact List.forall_mem_cons.mpr ⟨ofOlder.unhidden, ofLater⟩
    · exact (List.forall_mem_cons.mp rest).2

/-- The latest entry of a name can go if it hides none that is hidden. -/
theorem erase {front behind : List Variable} {entry : Variable}
    (chained : IsChained ⟨front ++ entry :: behind⟩)
    (last : entry.name ∉ reservedNames → ∀ later ∈ behind, (later.name == entry.name) = false)
    (shown : entry.has hidingMark = true →
      ∀ other ∈ front, other.name = entry.name → other.has hiddenMark = false) :
    IsChained ⟨front ++ behind⟩ := by
  apply chained.update entry.name
  · intro other isOther
    simp only [ofName_append, ofName_cons_of_ne isOther.symm]
  · intro unreserved
    have chains := (chained.chains_split rfl unreserved (last unreserved)).2
    have hidesNothing : entry.has hidingMark = false := by
      by_contra hides
      rw [Bool.not_eq_false] at hides
      have hidesNone := chains.head fun other member => by
        obtain ⟨isOlder, named⟩ := mem_ofName.mp (List.mem_reverse.mp member)
        exact shown hides other isOlder named
      rw [hides] at hidesNone
      cases hidesNone
    rw [ofName_append, ofName_eq_nil (last unreserved), List.append_nil, ← hidesNothing]
    exact chains
  · have older := List.forall_mem_append.mp chained.proper
    exact List.forall_mem_append.mpr ⟨older.1, (List.forall_mem_cons.mp older.2).2⟩

/-- Removing the latest entry of a name uncovers what it hid. -/
theorem removeAt (chained : table.IsChained) {front behind : List Variable} {entry : Variable}
    (split : table.entries = front ++ entry :: behind)
    (last : entry.name ∉ reservedNames → ∀ later ∈ behind, (later.name == entry.name) = false) :
    (table.removeAt front.length).IsChained := by
  obtain rfl : table = ⟨front ++ entry :: behind⟩ := congrArg Variables.mk split
  rcases removeAt_cases front behind entry with
    ⟨upTo, older, later, rfl, sameName, shown, hides, removed⟩ | ⟨shown, removed⟩
  · exact removed ▸ chained.uncover sameName last shown hides
  · exact removed ▸ chained.erase last shown

theorem purge (chained : table.IsChained) {level : Int} {entry : Variable}
    (purges : table.purge name level = some (entry, after)) : after.IsChained := by
  obtain ⟨front, behind, split, rfl, rfl, -, last⟩ := exists_split_of_purge purges
  refine chained.removeAt split fun unreserved later member => ?_
  by_contra sameName
  rw [Bool.not_eq_false, beq_iff_eq] at sameName
  have seen := (chained.proper later (by simp [split, member])).seen (sameName ▸ unreserved)
  have unseen := last later member
  simp [sameName, Variable.isSeenFrom, seen] at unseen

end IsChained

/-- What removing the latest local keeps, purging the locals of a level keeps. -/
theorem purgeFromLevel_induction {property : Variables → Prop} {level : Int}
    (removes : ∀ init last, last.isGlobal = false → level ≤ last.level → property ⟨init ++ [last]⟩ →
      property (removeAt ⟨init ++ [last]⟩ init.length))
    {table : Variables} (holds : property table) : property (table.purgeFromLevel level).2 := by
  have run (fuel count : Nat) : property (purgeFromLevel.go level fuel count table).2 := by
    induction fuel generalizing table count with
    | zero => exact holds
    | succ fuel ih =>
        rw [purgeFromLevel.go]
        rcases List.eq_nil_or_concat table.entries with empty | ⟨init, last, entries⟩
        · simpa [empty] using holds
        · rw [List.concat_eq_append] at entries
          obtain rfl : table = ⟨init ++ [last]⟩ := congrArg Variables.mk entries
          simp only [List.getLast?_append_cons, List.getLast?_singleton]
          split
          · exact holds
          · next goes =>
              simp only [Bool.or_eq_true, decide_eq_true_eq, not_or, not_lt, Bool.not_eq_true] at goes
              have removed := removes init last goes.2 goes.1 holds
              rw [List.length_append, List.length_singleton, Nat.add_sub_cancel]
              exact ih removed _
  exact run _ _

theorem IsChained.purgeFromLevel {table : Variables} (chained : table.IsChained) (level : Int) :
    (table.purgeFromLevel level).2.IsChained :=
  purgeFromLevel_induction (fun _ _ _ _ chained => chained.removeAt rfl fun _ _ member => by simp at member)
    chained

theorem chains_of_plain {entries : List Variable} (plain : ∀ entry ∈ entries, entry.marks = 0) :
    Chains false entries := by
  induction entries with
  | nil => rfl
  | cons entry entries ih =>
      obtain ⟨marks, plain⟩ := List.forall_mem_cons.mp plain
      refine ⟨by simp [Variable.has, marks], ?_⟩
      rw [show entry.has hidingMark = false by simp [Variable.has, marks]]
      exact ih plain

theorem isChained_of_plain {entries : List Variable} (plain : ∀ entry ∈ entries, entry.marks = 0) :
    IsChained ⟨entries⟩ where
  chains _ _ := chains_of_plain fun entry member =>
    plain entry (mem_ofName.mp (List.mem_reverse.mp member)).1
  proper entry member := Variable.isProper_of_plain (plain entry member)

/-- Whatever operations made it, a table is chained. -/
theorem IsMade.isChained {table : Variables} (made : table.IsMade) : table.IsChained := by
  induction made with
  | new memory =>
      rw [Machine.newRegisters]
      split
      · exact isChained_of_plain (by simp)
      · exact isChained_of_plain (by simp)
  | setValue made index value chained => exact chained.setValue index value
  | store made stores chained => exact chained.store stores
  | storeLocal made given stores chained => exact chained.storeLocal given stores
  | purge made purges chained => exact chained.purge purges
  | purgeFromLevel made level chained => exact chained.purgeFromLevel level
  | reread made same chained => exact chained.congr same
  | flattened plain => exact isChained_of_plain fun entry member => (plain entry member).2

/-- Entries that hide nothing are all in view. -/
theorem Chains.shown {entries : List Variable} (chains : Chains false entries)
    (hidesNothing : ∀ entry ∈ entries, entry.has hidingMark = false) :
    ∀ entry ∈ entries, entry.has hiddenMark = false := by
  induction entries with
  | nil => simp
  | cons entry entries ih =>
      obtain ⟨shown, older⟩ := chains
      obtain ⟨hides, hidesNothing⟩ := List.forall_mem_cons.mp hidesNothing
      rw [hides] at older
      exact List.forall_mem_cons.mpr ⟨shown, ih older hidesNothing⟩

/-- Where there are no locals, nothing is hidden. -/
theorem IsChained.shown_of_global {table : Variables} (chained : table.IsChained)
    (allGlobal : ∀ entry ∈ table.entries, entry.level = globalLevel) {entry : Variable}
    (member : entry ∈ table.entries) (unreserved : entry.name ∉ reservedNames) :
    entry.has hiddenMark = false := by
  refine (chained.chains entry.name unreserved).shown (fun other isOther => ?_) entry
    (List.mem_reverse.mpr (mem_ofName.mpr ⟨member, rfl⟩))
  have isEntry := (mem_ofName.mp (List.mem_reverse.mp isOther)).1
  by_contra hides
  exact (chained.proper other isEntry).isLocal (by simpa using hides) (allGlobal other isEntry)

end Variables

end Keystroke
