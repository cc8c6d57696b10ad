import Mathlib
import Keystroke.Proofs.Calls.Restoring

/-!
# What calls keep comes back

No two places hold what a call keeps, so a file holds it in full and the reader gives it storages that
nothing else has. A table of variables that comes back keeps the same things at the same levels.
-/

namespace Keystroke

open StateFile Reader
open Variable (globalLevel)
open Machine (packageName parkedEditorName)

/-! ## Holders -/

namespace Value

mutual

theorem Fits.storages {free : Nat → Prop} : (value : Value) → value.Fits free →
    ∀ number ∈ value.storages, free number
  | .realMatrix storage _, fits, number, member | .complexMatrix storage _, fits, number, member =>
    fits.1 number (Option.mem_toList.mp member)
  | .list storage items, fits, number, member => by
    rcases List.mem_append.mp member with member | member
    · exact fits.1 number (Option.mem_toList.mp member)
    · exact AllFit.storages items fits.2 number member

theorem AllFit.storages {free : Nat → Prop} : (values : List Value) → AllFit free values →
    ∀ number ∈ allStorages values, free number
  | value :: rest, fit, number, member => by
    rcases List.mem_append.mp member with member | member
    · exact Fits.storages value fit.1 number member
    · exact AllFit.storages rest fit.2 number member

end

/-- A taken storage is in what a call keeps as often as it makes up what is kept. -/
theorem IsKept.count_storages {free : Nat → Prop} {name : List UInt8} {value : Value}
    (kept : value.IsKept free name) {number : Nat} (taken : ¬ free number) :
    value.storages.count number = value.ownStorages.count number := by
  cases kept with
  | mode => rfl
  | stack storage inner isBig outputs errorIgnored inputs values lastX enough small fit fits =>
      have notInValues : (allStorages values).count number = 0 := List.count_eq_zero.mpr fun member =>
        taken (AllFit.storages values (allFit_iff.mpr fit) number member)
      have notInLastX : lastX.storages.count number = 0 := List.count_eq_zero.mpr fun member =>
        taken (Fits.storages lastX fits number member)
      simp [storages, allStorages, ownStorages, List.count_cons, notInValues, notInLastX]
  | editor storage inner isEditing level row col path name =>
      have notInPath : (allStorages (path.map .real)).count number = 0 := by
        refine List.count_eq_zero.mpr fun member => ?_
        rw [allStorages_eq_flatMap, List.flatMap_map] at member
        obtain ⟨_, -, member⟩ := List.mem_flatMap.mp member
        cases member
      simp [storages, allStorages, ownStorages, List.count_cons, notInPath]

end Value

namespace StateFile

mutual

/-- A storage has no more holders than there are arrays in it. -/
theorem count_holdersOf_le (counted : List Nat) (number : Nat) : (value : Value) →
    (holdersOf counted value).count number ≤ counted.count number + value.storages.count number
  | .realMatrix (some storage) grid | .complexMatrix (some storage) grid => by
    simp only [holdersOf, Value.storages, Option.toList_some, List.count_cons, List.count_nil]
    omega
  | .realMatrix none grid | .complexMatrix none grid => Nat.le_add_right _ _
  | .list none items => by
    simpa [holdersOf, Value.storages] using count_holdersOfAll_le counted number items
  | .list (some storage) items => by
    have inner := count_holdersOfAll_le (storage :: counted) number items
    simp only [holdersOf, Value.storages, Option.toList_some, List.count_cons, List.cons_append,
      List.nil_append] at inner ⊢
    split
    · rw [List.count_cons]
      omega
    · omega
  | .null | .real _ | .complex _ | .text _ => Nat.le_add_right _ _

theorem count_holdersOfAll_le (counted : List Nat) (number : Nat) : (values : List Value) →
    (holdersOfAll counted values).count number ≤
      counted.count number + (Value.allStorages values).count number
  | [] => Nat.le_add_right _ _
  | value :: rest => by
    have first := count_holdersOf_le counted number value
    have others := count_holdersOfAll_le (holdersOf counted value) number rest
    rw [holdersOfAll, Value.allStorages, List.count_append]
    omega

end

/-- Only one place holds what makes up what a call keeps. -/
theorem not_mem_sharedStorages {calls : Calls} {floor : Nat} {machine : Machine}
    (sound : calls.IsStored machine.nextStorage) (settled : machine.IsSettled calls floor) {number : Nat}
    (taken : number ∈ calls.taken) : number ∉ sharedStorages machine := by
  have notFree : ¬ calls.free machine.nextStorage number := fun isFree => isFree.2 taken
  have none {value : Value} (fits : value.Fits (calls.free machine.nextStorage)) :
      number ∉ value.storages := fun member => notFree (Value.Fits.storages value fits number member)
  -- Of all that the machine holds, only what is kept has the number, and it has it once.
  have entries : ((machine.bindings.entries.flatMap fun entry => entry.value.storages).count number) =
      calls.taken.count number := by
    have isKept := settled.bindings.kept
    have fits := settled.bindings.fits
    have values := sound.values
    rw [Calls.taken, ← isKept]
    rw [← isKept] at values
    clear isKept
    generalize machine.bindings.entries = entries at fits values ⊢
    induction entries with
    | nil => rfl
    | cons entry entries ih =>
        have rest := ih (fun other member => fits other (List.mem_cons_of_mem _ member))
          fun other member => values other (by
            rw [List.mem_filter] at member ⊢
            exact ⟨List.mem_cons_of_mem _ member.1, member.2⟩)
        rw [List.flatMap_cons, List.count_append, rest]
        by_cases reserved : entry.isKept calls.names = true
        · rw [List.filter_cons_of_pos reserved, List.flatMap_cons, List.count_append]
          have kept := values entry (List.mem_filter.mpr ⟨List.mem_cons_self, reserved⟩)
          rw [kept.count_storages notFree]
        · rw [List.filter_cons_of_neg reserved, List.count_eq_zero.mpr, Nat.zero_add]
          have unreserved := Variable.isKept_eq_false.mp (by simpa using reserved)
          exact none (fits entry List.mem_cons_self unreserved)
  have holders := count_holdersOfAll_le [] number (heldValues machine)
  have inStack : number ∉ machine.stack.values.reverse.flatMap Value.storages := by
    intro member
    obtain ⟨value, isValue, member⟩ := List.mem_flatMap.mp member
    exact none (settled.stack value (List.mem_reverse.mp isValue)) member
  rw [mem_sharedStorages, Nat.not_lt]
  refine holders.trans ?_
  rw [Value.allStorages_eq_flatMap, heldValues, List.flatMap_append, List.flatMap_cons,
    List.flatMap_map, List.count_append, List.count_append, entries,
    List.count_eq_zero.mpr inStack, List.count_eq_zero.mpr (none settled.lastX), List.count_nil]
  have once := List.nodup_iff_count_le_one.mp sound.taken number
  omega

/-! ## What a call keeps -/

section

variable {version : Nat} {shared : List Nat} {cuts : Bool} {shape : Nat → Nat → Prop} {taken : List Nat}
  {bound : Nat}

theorem Tracks.read {α : Type} {write : Writer Bytes} {read : Nat → Reader α}
    {property : List Nat → Nat → α → Prop} (tracks : Tracks shape taken bound write read property) :
    Tracks shape taken bound write (fun _ => do read ((← get).bytes.length + 1)) property := by
  intro written bytes later wrote _ before rest result after holds atBound run
  exact tracks written bytes later wrote _ before rest result after holds atBound run

/-- A number in front of other values takes no storage. -/
theorem tracks_real_cons (x : Binary64) {items reversed : List Value}
    {property : List Nat → Nat → List Value → Prop}
    (tracks : Tracks shape taken bound (valueFields ⟨version, shared⟩ items)
      (fun depth => many.go (valueWithin ⟨version, cuts⟩ depth) items.length (.real x :: reversed))
      property) :
    Tracks shape taken bound (valueFields ⟨version, shared⟩ (.real x :: items))
      (fun depth => many.go (valueWithin ⟨version, cuts⟩ depth) (items.length + 1) reversed)
      property := by
  refine (tracks_real x).items_cons ?_
  rintro _ _ _ - ⟨rfl, rfl, rfl⟩
  rw [List.append_nil]
  exact tracks

/-- What comes back of what a call keeps under a name: it is in storages of its own. -/
def IsKeptIn (taken : List Nat) (name : Bytes) (own : List Nat) (next : Nat) (result : Value) : Prop :=
  result.ownStorages = own ∧ result.IsKept (IsFree (taken ++ own) next) name

/-- A package without a stack. -/
theorem tracks_mode (isBig : Binary64) {storage : Nat} (alone : storage ∉ shared) :
    Tracks Grid.IsSmall taken bound (valueField ⟨version, shared⟩ (.list (some storage) [.real isBig]))
      (valueWithin ⟨version, cuts⟩) (IsKeptIn taken packageName) := by
  have contents : Tracks Grid.IsSmall taken bound (valueFields ⟨version, shared⟩ [.real isBig])
      (fun depth => many (valueWithin ⟨version, cuts⟩ depth) 1)
      fun own _ results => own = [] ∧ results = [.real isBig] :=
    tracks_real_cons isBig (tracks_items_nil ⟨rfl, rfl⟩)
  refine (tracks_alone alone contents).imp ?_
  rintro _ _ _ - ⟨_, _, new, rfl, rfl, rfl, rfl, rfl⟩
  exact ⟨rfl, .mode ..⟩

section

variable {storage inner : Nat} (alone : storage ∉ shared) (aloneInner : inner ∉ shared)

/-- What stays free behind one storage stays so behind two. -/
theorem isFree_outer {new outer number : Nat} (isFree : IsFree (taken ++ [new]) outer number) :
    IsFree (taken ++ [outer, new]) (outer + 1) number := by
  obtain ⟨below, notTaken⟩ := isFree
  refine ⟨below.trans (Nat.lt_succ_self _), ?_⟩
  simp only [List.mem_append, List.mem_cons, List.not_mem_nil, or_false, not_or] at notTaken ⊢
  exact ⟨notTaken.1, below.ne, notTaken.2⟩

include aloneInner

theorem tracks_stackContents {free : Nat → Prop} (isBig inputs outputs errorIgnored : Binary64)
    {values : List Value} {lastX : Value} (fit : ∀ value ∈ values, value.Fits free)
    (fits : lastX.Fits free) :
    Tracks Grid.IsSmall taken bound (valueFields ⟨version, shared⟩ [.real isBig, .list (some inner) values, lastX,
        .real inputs, .real outputs, .real errorIgnored])
      (fun depth => many (valueWithin ⟨version, cuts⟩ depth) 6)
      fun own next results => ∃ new read lastX, own = [new] ∧
        results = [.real isBig, .list (some new) read, lastX, .real inputs, .real outputs,
          .real errorIgnored] ∧ read.length = values.length ∧
        (∀ value ∈ read, value.Fits (IsFree (taken ++ own) next)) ∧
        lastX.Fits (IsFree (taken ++ own) next) := by
  refine tracks_real_cons isBig ((tracks_alone aloneInner (tracks_ordinary_items fun item member _ =>
    tracks_value Grid.isNarrow_of_isSmall item (fit item member))).items_cons ?_)
  rintro _ _ _ - ⟨_, read, new, rfl, rfl, rfl, rfl, same, fitRead⟩
  have fitLater : ∀ value ∈ read, value.Fits (IsFree (taken ++ [new]) (new + 1)) :=
    fun value member => (AreNew.nil new).succ.fits (fitRead value member)
  refine (tracks_value Grid.isNarrow_of_isSmall lastX fits).items_cons ?_
  rintro _ next lastX new ⟨rfl, fitsLastX⟩
  rw [List.append_nil]
  refine tracks_real_cons inputs (tracks_real_cons outputs (tracks_real_cons errorIgnored
    (tracks_items_nil ⟨_, read, lastX, rfl, rfl, same, fun value member => ?_, fitsLastX⟩)))
  exact (fitLater value member).imp fun _ isFree => isFree.later new.le

include alone

/-- A package with a stack. -/
theorem tracks_savedStack {free : Nat → Prop} (isBig outputs errorIgnored : Binary64) {inputs : Nat}
    {values : List Value} {lastX : Value} (enough : inputs ≤ values.length) (small : inputs < 2 ^ 53)
    (fit : ∀ value ∈ values, value.Fits free)
    (fits : lastX.Fits free) :
    Tracks Grid.IsSmall taken bound
      (valueField ⟨version, shared⟩ (.list (some storage) [.real isBig, .list (some inner) values,
        lastX, .real (.ofNat inputs), .real outputs, .real errorIgnored]))
      (valueWithin ⟨version, cuts⟩) (IsKeptIn taken packageName) := by
  refine (tracks_alone alone (tracks_stackContents aloneInner isBig (.ofNat inputs) outputs errorIgnored fit
    fits)).imp ?_
  rintro _ _ _ - ⟨_, _, outer, rfl, rfl, rfl, new, read, lastX, rfl, rfl, same, fit, fits⟩
  exact ⟨rfl, .stack _ _ _ _ _ _ _ _ (enough.trans_eq same.symm) small
    (fun value member => (fit value member).imp fun _ => isFree_outer)
    (fits.imp fun _ => isFree_outer)⟩

/-- A parked editor. -/
theorem tracks_parkedEditor (long : holdsLongTexts version = true)
    (isEditing level row col : Binary64) (path : List Binary64) {name : Bytes}
    (unreserved : name ∉ reservedNames) :
    Tracks Grid.IsSmall taken bound
      (valueField ⟨version, shared⟩ (.list (some storage) [.real isEditing, .text name, .real level,
        .real row, .real col, .list (some inner) (path.map .real)]))
      (valueWithin ⟨version, cuts⟩) (IsKeptIn taken parkedEditorName) := by
  have contents : Tracks Grid.IsSmall taken bound (valueFields ⟨version, shared⟩
      [.real isEditing, .text name, .real level, .real row, .real col,
        .list (some inner) (path.map .real)]) (fun depth => many (valueWithin ⟨version, cuts⟩ depth) 6)
      fun own _ results => ∃ new, own = [new] ∧
        results = [.real isEditing, .text name, .real level, .real row, .real col,
          .list (some new) (path.map .real)] := by
    refine tracks_real_cons isEditing ((tracks_text name).items_cons ?_)
    rintro _ _ _ - ⟨rfl, rfl, _, rfl, same⟩
    obtain rfl := same long
    rw [List.append_nil]
    refine tracks_real_cons level (tracks_real_cons row (tracks_real_cons col
      ((tracks_alone aloneInner (tracks_items (fun _ => Eq) []
        (fun _ _ _ _ _ same => same) fun item member _ => ?_)).items_cons ?_)))
    · obtain ⟨x, -, rfl⟩ := List.mem_map.mp member
      refine (tracks_real x).imp ?_
      rintro _ _ _ - ⟨rfl, rfl, rfl⟩
      exact ⟨rfl, rfl⟩
    · rintro _ _ _ - ⟨_, _, new, rfl, rfl, rfl, rfl, read, rfl, same⟩
      refine tracks_items_nil ⟨new, rfl, ?_⟩
      rw [List.forall₂_eq_eq_eq] at same
      subst same
      rfl
  refine (tracks_alone alone contents).imp ?_
  rintro _ _ _ - ⟨_, _, outer, rfl, rfl, rfl, new, rfl, rfl⟩
  exact ⟨rfl, .editor _ _ _ _ _ _ _ _ unreserved⟩

end

/-- What a call keeps comes back in storages of its own. -/
theorem tracks_kept {free : Nat → Prop} {name : Bytes} {value : Value}
    (levels : holdsLevels version = true) (kept : value.IsKept free name)
    (alone : ∀ number ∈ value.ownStorages, number ∉ shared) :
    Tracks Grid.IsSmall taken bound (valueField ⟨version, shared⟩ value) (valueWithin ⟨version, cuts⟩)
      (IsKeptIn taken name) := by
  cases kept with
  | mode storage isBig => exact tracks_mode isBig (alone storage List.mem_cons_self)
  | stack storage inner isBig outputs errorIgnored inputs values lastX enough small fit fits =>
      exact tracks_savedStack (alone storage List.mem_cons_self)
        (alone inner (by simp [Value.ownStorages])) isBig outputs errorIgnored enough small fit fits
  | editor storage inner isEditing level row col path name unreserved =>
      have long : holdsLongTexts version = true := by
        have : 42 ≤ version := of_decide_eq_true levels
        exact decide_eq_true (by omega)
      exact tracks_parkedEditor (alone storage List.mem_cons_self)
        (alone inner (by simp [Value.ownStorages])) long isEditing level row col path unreserved

end

end StateFile

/-! ## Variables -/

/-- A variable of a machine: what a call keeps in it can be read back, and any other value keeps to free
storages. -/
def Variable.IsSettled (names : List (List UInt8)) (free : Nat → Prop) (entry : Variable) : Prop :=
  if entry.isKept names then entry.value.IsKept free entry.name else entry.value.Fits free

variable {names : List (List UInt8)}

theorem Variable.IsSettled.imp {free freer : Nat → Prop} {entry : Variable}
    (settled : entry.IsSettled names free) (weaken : ∀ number, free number → freer number) :
    entry.IsSettled names freer := by
  rw [IsSettled] at settled ⊢
  split
  · next kept =>
      rw [if_pos kept] at settled
      exact settled.imp weaken
  · next unreserved =>
      rw [if_neg unreserved] at settled
      exact settled.imp weaken

/-- The storages that make up what calls keep in variables. -/
def Variables.ownStorages (names : List (List UInt8)) (entries : List Variable) : List Nat :=
  (entries.filter (Variable.isKept names)).flatMap fun entry => entry.value.ownStorages

theorem Variables.ownStorages_cons (entry : Variable) (entries : List Variable) :
    ownStorages names (entry :: entries) = ownStorages names [entry] ++ ownStorages names entries := by
  rw [ownStorages, ownStorages, ownStorages, ← List.flatMap_append, ← List.filter_append]
  rfl

namespace StateFile

/-- What a layout gives back of a variable apart from its value. -/
structure ComesBack (version : Nat) (entry result : Variable) : Prop where
  name : result.name = entry.name
  level : result.level = (entry.inLayout version).level
  marks : result.marks = (entry.inLayout version).marks

theorem ComesBack.isKept {version : Nat} {entry result : Variable}
    (comesBack : ComesBack version entry result) : result.isKept names = entry.isKept names := by
  rw [Variable.isKept, Variable.isKept, comesBack.name]

/-- A variable that a layout can give back. -/
structure IsRestorable (names : List (List UInt8)) (version : Nat) (shared : List Nat) (free : Nat → Prop)
    (entry : Variable) :
    Prop where
  low : globalLevel ≤ entry.level
  high : entry.level ≤ maximalReturns
  settled : entry.IsSettled names free
  /-- What calls keep is in no layout without levels, and no two places share it. -/
  kept : entry.isKept names = true → holdsLevels version = true ∧
    ∀ number ∈ entry.value.ownStorages, number ∉ shared

section

variable {version : Nat} {shared : List Nat} {cuts : Bool} {taken : List Nat} {bound : Nat}
  {free : Nat → Prop}

/-- The value of a variable, as part of a variable with the same name. -/
theorem tracks_variableValue {entry : Variable} (restorable : IsRestorable names version shared free entry)
    (level : Int) (marks : UInt8) :
    Tracks Grid.IsSmall taken bound (valueField ⟨version, shared⟩ entry.value)
      (fun _ => Reader.value ⟨version, cuts⟩) fun own next result =>
        own = Variables.ownStorages names [⟨entry.name, level, marks, result⟩] ∧
          Variable.IsSettled names (IsFree (taken ++ own) next) ⟨entry.name, level, marks, result⟩ := by
  have settled := restorable.settled
  rw [Variable.IsSettled] at settled
  by_cases reserved : entry.isKept names = true
  · rw [if_pos reserved] at settled
    obtain ⟨levels, alone⟩ := restorable.kept reserved
    refine Tracks.imp (tracks_kept levels settled alone).read ?_
    rintro _ next result - ⟨rfl, kept⟩
    have stillReserved : Variable.isKept names ⟨entry.name, level, marks, result⟩ = true := reserved
    rw [Variable.IsSettled, if_pos stillReserved, Variables.ownStorages,
      List.filter_cons_of_pos stillReserved]
    exact ⟨(List.append_nil _).symm, kept⟩
  · rw [if_neg reserved] at settled
    refine Tracks.imp (tracks_value Grid.isNarrow_of_isSmall entry.value settled).read ?_
    rintro _ next result - ⟨rfl, fits⟩
    have unreserved : ¬ Variable.isKept names ⟨entry.name, level, marks, result⟩ = true := reserved
    rw [Variable.IsSettled, if_neg unreserved, Variables.ownStorages,
      List.filter_cons_of_neg unreserved, List.append_nil]
    exact ⟨rfl, fits⟩

theorem tracks_variable {entry : Variable} (restorable : IsRestorable names version shared free entry) :
    Tracks Grid.IsSmall taken bound (variableField ⟨version, shared⟩ entry)
      (fun _ => variableEntry ⟨version, cuts⟩) fun own next result =>
        ComesBack version entry result ∧ own = Variables.ownStorages names [result] ∧
          result.IsSettled names (IsFree (taken ++ own) next) := by
  intro written bytes later wrote depth
  obtain ⟨name, between, wroteName, wrote⟩ := run_bind_eq_ok.mp wrote
  obtain ⟨value, after, wroteValue, same⟩ := run_bind_eq_ok.mp wrote
  obtain ⟨rfl, rfl⟩ := run_pure_eq_ok.mp same
  rw [List.append_assoc]
  refine (passing_name entry.name name (run_lift_eq_ok.mp wroteName).1).andThen ?_
  rintro _ rfl
  have restoresEntry (level : Int) (marks : UInt8) (isLevel : level = (entry.inLayout version).level)
      (areMarks : marks = (entry.inLayout version).marks) :
      Restores Grid.IsSmall taken bound value
        (do return Variable.mk entry.name level marks (← Reader.value ⟨version, cuts⟩))
        fun own next result => ComesBack version entry result ∧ own = Variables.ownStorages names [result] ∧
          result.IsSettled names (IsFree (taken ++ own) next) :=
    Restores.map (tracks_variableValue restorable level marks _ _ _ wroteValue 0)
      fun own next result held => ⟨⟨rfl, isLevel, areMarks⟩, held⟩
  have low := restorable.low
  have high := restorable.high
  rw [globalLevel] at low
  rw [maximalReturns] at high
  change Restores Grid.IsSmall taken bound _ (do
    let place ←
      if holdsLevels version then pure (← integer, ← byte) else pure (Variable.globalLevel, 0)
    return Variable.mk entry.name place.1 place.2 (← Reader.value ⟨version, cuts⟩)) _
  rw [Variable.inLayout] at restoresEntry
  dsimp only at restoresEntry ⊢
  cases levels : holdsLevels version with
  | true =>
      rw [levels] at restoresEntry
      refine (reads_integer (by omega) (by omega)).passes.andThen ?_
      rintro _ rfl
      refine (reads_byte entry.marks).passes.andThen ?_
      rintro _ rfl
      exact restoresEntry entry.level entry.marks rfl rfl
  | false =>
      rw [levels] at restoresEntry
      exact restoresEntry globalLevel 0 rfl rfl

/-- A table comes back with what calls keep in it, all in new storages. -/
theorem tracks_variables {entries : List Variable} (reversed : List Variable)
    (restorable : ∀ entry ∈ entries, IsRestorable names version shared free entry) :
    Tracks Grid.IsSmall taken bound (List.flatten <$> entries.mapM (variableField ⟨version, shared⟩))
      (fun _ => many.go (variableEntry ⟨version, cuts⟩) entries.length reversed)
      fun own next results => ∃ read, results = reversed.reverse ++ read ∧
        List.Forall₂ (ComesBack version) entries read ∧ own = Variables.ownStorages names read ∧
          ∀ result ∈ read, result.IsSettled names (IsFree (taken ++ own) next) := by
  -- What came back of the entries before counts as taken for the entries behind.
  induction entries generalizing taken bound reversed with
  | nil =>
      intro written bytes later wrote depth
      cases wrote
      have passes : Passes (many.go (variableEntry ⟨version, cuts⟩) 0 reversed) []
          (· = reversed.reverse) := passes_pure rfl
      refine passes.restores.imp ?_
      rintro _ _ _ - ⟨rfl, rfl, rfl⟩
      exact ⟨[], (List.append_nil _).symm, .nil, rfl, by simp⟩
  | cons entry entries ih =>
      rw [flatten_mapM_cons]
      refine (tracks_variable (restorable entry List.mem_cons_self)).bind ?_
      rintro own between result - ⟨comesBack, isOwn, settled⟩
      refine (ih (result :: reversed) fun other member =>
        restorable other (List.mem_cons_of_mem _ member)).imp ?_
      rintro more next _ new ⟨read, rfl, others, isMore, settledOthers⟩
      refine ⟨result :: read, by simp, .cons comesBack others, ?_, ?_⟩
      · rw [Variables.ownStorages_cons, isOwn, isMore]
      · intro other member
        rw [← List.append_assoc]
        rcases List.mem_cons.mp member with rfl | member
        · exact settled.imp fun number isFree => new.isFree isFree
        · exact settledOthers other member

end

end StateFile

end Keystroke
