import Mathlib
import Keystroke.Proofs.VariableTable

/-!
# Dynamic scoping

A table of variables behaves like one map of globals under a stack of maps, one for each call: a name
means its binding in the innermost map that has one. The table keeps all maps in one list and marks what
is hidden, so each command on the maps is followed by the same command on the table.
-/

namespace Keystroke

open Variable (globalLevel)
open Variables (Binding Represents assign bindAt purgeAt isShadowedAt)

/-- A name that a variable can have. -/
structure VariableName where
  bytes : List UInt8
  nonempty : bytes ≠ []
  length_le : bytes.length ≤ Variable.maximalNameLength

theorem VariableName.checkName_eq (name : VariableName) :
    Variable.checkName name.bytes = .ok () := by
  rw [Variable.checkName, if_neg (by simpa using name.nonempty),
    if_neg (not_lt.mpr name.length_le)]

/-- What the names of one map mean. -/
abbrev Scope := List UInt8 → Option Value

/-- The map of globals, under one map for each level. -/
inductive Scopes where
  | globals (names : Scope)
  | call (names : Scope) (outer : Scopes)

/-- What a program can do to variables. -/
inductive ScopeCommand where
  | enter
  | leave
  | purgeLocals
  | store (name : VariableName) (value : Value)
  | storeLocal (name : VariableName) (value : Value)
  | purge (name : VariableName)

namespace Scopes

/-- Level zero without any name. -/
def initial : Scopes := .call (fun _ => none) (.globals fun _ => none)

/-- The level of the innermost map. -/
def level : Scopes → Int
  | globals _ => globalLevel
  | call _ outer => outer.level + 1

/-- The value of a name in the innermost map that has it. -/
def value? (name : List UInt8) : Scopes → Option Value
  | globals names => names name
  | call names outer => (names name).or (outer.value? name)

/-- Whether a local binding of a name would newly hide one of an outer map. -/
def shadows (name : List UInt8) : Scopes → Bool
  | globals _ => false
  | call names outer => (names name).isNone && (outer.value? name).isSome

/-- Change the innermost map that has a name, or else the globals. -/
def store (name : List UInt8) (value : Value) : Scopes → Scopes
  | globals names => globals (Function.update names name (some value))
  | call names outer =>
    if (names name).isSome then call (Function.update names name (some value)) outer
    else call names (outer.store name value)

/-- Change the innermost map. -/
def storeLocal (name : List UInt8) (value : Value) : Scopes → Scopes
  | globals names => globals (Function.update names name (some value))
  | call names outer => call (Function.update names name (some value)) outer

/-- Forget a name in the globals if no map above them has it. -/
def purgeGlobal (name : List UInt8) : Scopes → Scopes
  | globals names => globals (Function.update names name none)
  | call names outer =>
    if (names name).isSome then call names outer else call names (outer.purgeGlobal name)

/-- Forget the innermost binding of a name if that is in the innermost map or in the globals. -/
def purge (name : List UInt8) : Scopes → Scopes
  | globals names => globals (Function.update names name none)
  | call names outer =>
    if (names name).isSome then call (Function.update names name none) outer
    else call names (outer.purgeGlobal name)

/-- Drop the innermost map; level zero is left by nobody. -/
def leave : Scopes → Scopes
  | call _ (call names outer) => call names outer
  | scopes => scopes

/-- Empty all maps above the globals. -/
def purgeLocals : Scopes → Scopes
  | globals names => globals names
  | call _ outer => call (fun _ => none) outer.purgeLocals

/-- What a command does to the maps. -/
def step (scopes : Scopes) : ScopeCommand → Scopes
  | .enter => call (fun _ => none) scopes
  | .leave => scopes.leave
  | .purgeLocals => scopes.purgeLocals
  | .store name value => scopes.store name.bytes value
  | .storeLocal name value => scopes.storeLocal name.bytes value
  | .purge name => scopes.purge name.bytes

def run (commands : List ScopeCommand) : Scopes := commands.foldl step initial

end Scopes

/-- A table and the level that it is seen from. -/
structure LeveledTable where
  level : Nat
  table : Variables

namespace LeveledTable

/-- What a command does to the table. -/
def step : LeveledTable → ScopeCommand → Outcome LeveledTable
  | ⟨level, table⟩, .enter => return ⟨level + 1, table⟩
  | ⟨0, table⟩, .leave => return ⟨0, table⟩
  | ⟨level + 1, table⟩, .leave => return ⟨level, (table.purgeFromLevel (level + 1)).2⟩
  | ⟨level, table⟩, .purgeLocals => return ⟨level, (table.purgeFromLevel 0).2⟩
  | ⟨level, table⟩, .store name value => do
    return ⟨level, ← table.store name.bytes value level⟩
  | ⟨level, table⟩, .storeLocal name value => do
    let (_, table) ← table.storeLocal name.bytes value level 0
    return ⟨level, table⟩
  | ⟨level, table⟩, .purge name => return ⟨level, (table.purge name.bytes level).elim table (·.2)⟩

def run (commands : List ScopeCommand) : Outcome LeveledTable :=
  commands.foldlM step ⟨0, .empty⟩

end LeveledTable

/-! ## The bindings of a name in all maps -/

namespace Scopes

/-- The bindings of a name, the innermost first. -/
def bindings : Scopes → List UInt8 → List Binding
  | globals names, name => (names name).toList.map (⟨globalLevel, ·⟩)
  | call names outer, name => (names name).toList.map (⟨outer.level + 1, ·⟩) ++ outer.bindings name

theorem head?_bindings (scopes : Scopes) (name : List UInt8) :
    (scopes.bindings name).head?.map (·.value) = scopes.value? name := by
  induction scopes with
  | globals names => cases bound : names name <;> simp [bindings, value?, bound]
  | call names outer ih => cases bound : names name <;> simp [bindings, value?, bound, ih]

theorem globalLevel_le_level (scopes : Scopes) : globalLevel ≤ scopes.level := by
  induction scopes with
  | globals names => exact le_rfl
  | call names outer ih =>
      rw [level]
      omega

theorem level_of_mem_bindings (scopes : Scopes) {name : List UInt8} {binding : Binding}
    (member : binding ∈ scopes.bindings name) :
    globalLevel ≤ binding.level ∧ binding.level ≤ scopes.level := by
  induction scopes with
  | globals names =>
      obtain ⟨value, -, rfl⟩ := List.mem_map.mp member
      exact ⟨le_rfl, le_rfl⟩
  | call names outer ih =>
      have lowest := outer.globalLevel_le_level
      rw [level]
      rcases List.mem_append.mp member with here | further
      · obtain ⟨value, -, rfl⟩ := List.mem_map.mp here
        exact ⟨by dsimp only; omega, le_rfl⟩
      · obtain ⟨low, high⟩ := ih further
        exact ⟨low, by omega⟩

/-- No name has two bindings of a level. -/
theorem nodup_levels (scopes : Scopes) (name : List UInt8) :
    ((scopes.bindings name).map (·.level)).Nodup := by
  induction scopes with
  | globals names => cases bound : names name <;> simp [bindings, bound]
  | call names outer ih =>
      cases bound : names name with
      | none => simpa [bindings, bound] using ih
      | some value =>
          have deeper : ∀ binding ∈ outer.bindings name, binding.level ≠ outer.level + 1 := by
            intro binding member
            have := (outer.level_of_mem_bindings member).2
            omega
          simpa [bindings, bound, ih] using deeper

theorem isShadowedAt_bindings (scopes : Scopes) (name : List UInt8) :
    isShadowedAt scopes.level (scopes.bindings name) = scopes.shadows name := by
  cases scopes with
  | globals names => cases bound : names name <;> simp [bindings, bound, isShadowedAt, shadows, level]
  | call names outer =>
      rw [shadows, ← head?_bindings, bindings, level]
      cases bound : names name with
      | some value => simp [isShadowedAt]
      | none =>
          cases further : outer.bindings name with
          | nil => rfl
          | cons binding rest =>
              have below := (outer.level_of_mem_bindings (further ▸ List.mem_cons_self)).2
              have different : binding.level ≠ outer.level + 1 := by omega
              simp [isShadowedAt, different]

/-! ## What the commands do to the bindings of a name -/

theorem level_store (scopes : Scopes) (name : List UInt8) (value : Value) :
    (scopes.store name value).level = scopes.level := by
  induction scopes with
  | globals names => rfl
  | call names outer ih =>
      rw [store]
      split
      · rfl
      · rw [level, ih, level]

theorem level_storeLocal (scopes : Scopes) (name : List UInt8) (value : Value) :
    (scopes.storeLocal name value).level = scopes.level := by
  cases scopes <;> rfl

theorem level_purgeGlobal (scopes : Scopes) (name : List UInt8) :
    (scopes.purgeGlobal name).level = scopes.level := by
  induction scopes with
  | globals names => rfl
  | call names outer ih =>
      rw [purgeGlobal]
      split
      · rfl
      · rw [level, ih, level]

theorem level_purge (scopes : Scopes) (name : List UInt8) :
    (scopes.purge name).level = scopes.level := by
  cases scopes with
  | globals names => rfl
  | call names outer =>
      rw [purge]
      split
      · rfl
      · rw [level, level_purgeGlobal, level]

theorem level_purgeLocals (scopes : Scopes) : scopes.purgeLocals.level = scopes.level := by
  induction scopes with
  | globals names => rfl
  | call names outer ih => rw [purgeLocals, level, ih, level]

theorem bindings_store (scopes : Scopes) (name : List UInt8) (value : Value) :
    (scopes.store name value).bindings =
      Function.update scopes.bindings name (assign value (scopes.bindings name)) := by
  funext other
  by_cases same : other = name
  · subst same
    rw [Function.update_self]
    induction scopes with
    | globals names => cases bound : names other <;> simp [store, bindings, assign, bound]
    | call names outer ih =>
        cases bound : names other <;> simp [store, bindings, assign, bound, ih, level_store]
  · rw [Function.update_of_ne same]
    induction scopes with
    | globals names => simp [store, bindings, same]
    | call names outer ih =>
        cases bound : names name <;> simp [store, bindings, same, bound, ih, level_store]

theorem bindings_storeLocal (scopes : Scopes) (name : List UInt8) (value : Value) :
    (scopes.storeLocal name value).bindings =
      Function.update scopes.bindings name (bindAt scopes.level value (scopes.bindings name)) := by
  funext other
  by_cases same : other = name
  · subst same
    rw [Function.update_self]
    cases scopes with
    | globals names => cases bound : names other <;> simp [storeLocal, bindings, bindAt, level, bound]
    | call names outer =>
        cases bound : names other with
        | some older => simp [storeLocal, bindings, bindAt, level, bound]
        | none =>
            cases further : outer.bindings other with
            | nil => simp [storeLocal, bindings, bindAt, level, bound, further]
            | cons binding rest =>
                have below := (outer.level_of_mem_bindings (further ▸ List.mem_cons_self)).2
                have different : binding.level ≠ outer.level + 1 := by omega
                simp [storeLocal, bindings, bindAt, level, bound, further, different]
  · rw [Function.update_of_ne same]
    cases scopes <;> simp [storeLocal, bindings, same]

theorem bindings_purgeGlobal (scopes : Scopes) (name : List UInt8) (level : Int)
    (deeper : scopes.level < level) :
    (scopes.purgeGlobal name).bindings =
      Function.update scopes.bindings name (purgeAt level (scopes.bindings name)) := by
  funext other
  by_cases same : other = name
  · subst same
    rw [Function.update_self]
    induction scopes with
    | globals names =>
        cases bound : names other <;> simp [purgeGlobal, bindings, purgeAt, bound]
    | call names outer ih =>
        have lowest := outer.globalLevel_le_level
        rw [Scopes.level] at deeper
        cases bound : names other with
        | none => simp [purgeGlobal, bindings, bound, ih (by omega)]
        | some value =>
            have stays : ¬(outer.level + 1 = globalLevel ∨ outer.level + 1 = level) := by omega
            simp [purgeGlobal, bindings, purgeAt, bound, stays]
  · rw [Function.update_of_ne same]
    induction scopes with
    | globals names => simp [purgeGlobal, bindings, same]
    | call names outer ih =>
        rw [Scopes.level] at deeper
        cases bound : names name <;>
          simp [purgeGlobal, bindings, bound, ih (by omega), level_purgeGlobal]

theorem bindings_purge (scopes : Scopes) (name : List UInt8) :
    (scopes.purge name).bindings =
      Function.update scopes.bindings name (purgeAt scopes.level (scopes.bindings name)) := by
  funext other
  cases scopes with
  | globals names =>
      by_cases same : other = name
      · subst same
        cases bound : names other <;> simp [purge, bindings, purgeAt, bound]
      · simp [purge, bindings, same]
  | call names outer =>
      have below : outer.level < outer.level + 1 := by omega
      have further := congrFun (outer.bindings_purgeGlobal name _ below) other
      by_cases same : other = name
      · subst same
        rw [Function.update_self] at further ⊢
        cases bound : names other with
        | none => simp [purge, bindings, level, bound, further]
        | some value => simp [purge, bindings, purgeAt, level, bound]
      · rw [Function.update_of_ne same] at further ⊢
        cases bound : names name <;>
          simp [purge, bindings, same, bound, further, level_purgeGlobal]

/-- Bindings below a level are all kept when the level is dropped. -/
theorem dropWhile_bindings (scopes : Scopes) (name : List UInt8) {level : Int}
    (below : scopes.level < level) :
    (scopes.bindings name).dropWhile (fun binding => level ≤ binding.level) =
      scopes.bindings name := by
  cases bound : scopes.bindings name with
  | nil => rfl
  | cons binding outer =>
      have le := (scopes.level_of_mem_bindings (bound ▸ List.mem_cons_self)).2
      rw [List.dropWhile_cons_of_neg]
      simp only [decide_eq_true_eq, not_le]
      omega

theorem bindings_call_dropWhile (names : Scope) (outer : Scopes) :
    (fun name => ((call names outer).bindings name).dropWhile
      fun binding => (call names outer).level ≤ binding.level) = outer.bindings := by
  funext name
  have kept := outer.dropWhile_bindings name (Int.lt_succ outer.level)
  cases bound : names name <;> simpa [bindings, level, bound] using kept

theorem bindings_purgeLocals (scopes : Scopes) :
    scopes.purgeLocals.bindings = fun name => (scopes.bindings name).dropWhile
      fun binding => 0 ≤ binding.level := by
  funext name
  induction scopes with
  | globals names =>
      exact ((globals names).dropWhile_bindings name (by simp [level, globalLevel])).symm
  | call names outer ih =>
      have lowest := outer.globalLevel_le_level
      have isLocal : 0 ≤ outer.level + 1 := by
        rw [globalLevel] at lowest
        omega
      cases bound : names name <;> simp [purgeLocals, bindings, bound, ih, isLocal]

end Scopes

/-! ## The table follows the maps -/

namespace LeveledTable

/-- A table has the bindings of all maps, seen from the innermost. -/
structure Follows (leveled : LeveledTable) (scopes : Scopes) : Prop where
  level : (leveled.level : Int) = scopes.level
  table : leveled.table.Represents scopes.bindings

variable {leveled : LeveledTable} {scopes : Scopes}

theorem follows_initial : Follows ⟨0, .empty⟩ .initial :=
  ⟨rfl, fun _ => rfl, List.Pairwise.nil⟩

namespace Follows

theorem lowest (follows : leveled.Follows scopes) :
    ∀ entry ∈ leveled.table.entries, globalLevel ≤ entry.level :=
  fun _ member => (scopes.level_of_mem_bindings (follows.table.mem member).2).1

theorem deepest (follows : leveled.Follows scopes) :
    ∀ entry ∈ leveled.table.entries, entry.level ≤ leveled.level := by
  intro entry member
  rw [follows.level]
  exact (scopes.level_of_mem_bindings (follows.table.mem member).2).2

/-- A local assignment tells whether it hides a binding of an outer map. -/
theorem storeLocal (follows : leveled.Follows scopes) (name : VariableName) (value : Value) :
    ∃ after, leveled.table.storeLocal name.bytes value leveled.level 0 =
        .ok (scopes.shadows name.bytes, after) ∧
      Follows ⟨leveled.level, after⟩ (scopes.storeLocal name.bytes value) := by
  obtain ⟨after, stored, represents⟩ :=
    follows.table.storeLocal name.checkName_eq value follows.deepest
  rw [follows.level, scopes.isShadowedAt_bindings] at stored
  refine ⟨after, by rw [follows.level, stored], ?_, ?_⟩
  · rw [scopes.level_storeLocal, ← follows.level]
  · rwa [scopes.bindings_storeLocal, ← follows.level]

theorem leave (follows : leveled.Follows scopes) :
    ∃ after, leveled.step .leave = .ok after ∧ after.Follows scopes.leave := by
  obtain ⟨level, table⟩ := leveled
  obtain ⟨sameLevel, represents⟩ := id follows
  cases level with
  | zero =>
      refine ⟨⟨0, table⟩, rfl, ?_⟩
      cases scopes with
      | globals names => exact follows
      | call names outer =>
          cases outer with
          | globals globals => exact follows
          | call names outer =>
              have lowest := outer.globalLevel_le_level
              simp only [Scopes.level, globalLevel] at sameLevel lowest
              omega
  | succ level =>
      cases scopes with
      | globals names =>
          simp only [Scopes.level, globalLevel] at sameLevel
          omega
      | call names outer =>
          have isLocal : globalLevel < (level + 1 : Int) := by
            rw [globalLevel]
            omega
          have dropped := represents.purgeFromLevel isLocal
          simp only [Nat.cast_add, Nat.cast_one] at sameLevel
          rw [sameLevel, Scopes.bindings_call_dropWhile] at dropped
          cases outer with
          | globals globals =>
              simp only [Scopes.level, globalLevel] at sameLevel
              omega
          | call names outer =>
              refine ⟨⟨level, _⟩, rfl, ?_, ?_⟩
              · simpa [Scopes.leave, Scopes.level] using sameLevel
              · rwa [← sameLevel] at dropped

/-- The table follows the maps through a command. -/
theorem step (follows : leveled.Follows scopes) (command : ScopeCommand) :
    ∃ after, leveled.step command = .ok after ∧ after.Follows (scopes.step command) := by
  obtain ⟨sameLevel, represents⟩ := id follows
  cases command with
  | enter =>
      refine ⟨_, rfl, ?_, ?_⟩
      · simp [Scopes.step, Scopes.level, sameLevel]
      · exact represents
  | leave => exact follows.leave
  | purgeLocals =>
      refine ⟨_, rfl, ?_, ?_⟩
      · rw [Scopes.step, scopes.level_purgeLocals, ← sameLevel]
      · rw [Scopes.step, scopes.bindings_purgeLocals]
        exact represents.purgeFromLevel (by decide)
  | store name value =>
      obtain ⟨after, stored, represents⟩ :=
        represents.store name.checkName_eq value leveled.level follows.lowest
      refine ⟨⟨leveled.level, after⟩, by rw [LeveledTable.step, stored]; rfl, ?_, ?_⟩
      · rw [Scopes.step, scopes.level_store, ← sameLevel]
      · rwa [Scopes.step, scopes.bindings_store]
  | storeLocal name value =>
      obtain ⟨after, stored, follows⟩ := follows.storeLocal name value
      exact ⟨⟨leveled.level, after⟩, by rw [LeveledTable.step, stored]; rfl, follows⟩
  | purge name =>
      refine ⟨_, rfl, ?_, ?_⟩
      · rw [Scopes.step, scopes.level_purge, ← sameLevel]
      · rw [Scopes.step, scopes.bindings_purge, ← sameLevel]
        exact represents.purge name.bytes leveled.level

end Follows

/-- The table follows the maps through any commands. -/
theorem Follows.foldlM (follows : leveled.Follows scopes) (commands : List ScopeCommand) :
    ∃ after, commands.foldlM LeveledTable.step leveled = .ok after ∧
      after.Follows (commands.foldl Scopes.step scopes) := by
  induction commands generalizing leveled scopes with
  | nil => exact ⟨leveled, rfl, follows⟩
  | cons command commands ih =>
      obtain ⟨next, stepped, follows⟩ := follows.step command
      obtain ⟨after, ran, follows⟩ := ih follows
      exact ⟨after, by rw [List.foldlM_cons, stepped]; exact ran, follows⟩

/-- Whatever commands were given to the table, names have dynamic scope: a name has the value of its
innermost binding, a local assignment tells whether it newly hides an outer binding, entries are in the
order of levels and no two have the same name and level, and a catalog shows every bound name once, with
its value. -/
theorem dynamic_scoping (commands : List ScopeCommand) :
    ∃ leveled, run commands = .ok leveled ∧
      (leveled.level : Int) = (Scopes.run commands).level ∧
      (∀ name, leveled.table.value? name leveled.level = (Scopes.run commands).value? name) ∧
      (∀ (name : VariableName) value, ∃ after,
        leveled.table.storeLocal name.bytes value leveled.level 0 =
          .ok ((Scopes.run commands).shadows name.bytes, after)) ∧
      Variables.inLevelOrder leveled.table.entries = true ∧
      (leveled.table.entries.Pairwise fun older newer =>
        ¬(older.name = newer.name ∧ older.level = newer.level)) ∧
      ∀ name, ((leveled.table.visible leveled.level).filter (·.name == name)).map (·.value) =
        ((Scopes.run commands).value? name).toList := by
  obtain ⟨leveled, ran, follows⟩ := follows_initial.foldlM commands
  refine ⟨leveled, ran, follows.level, ?_, ?_, ?_, ?_, ?_⟩
  · intro name
    rw [follows.table.value?_eq, Scopes.head?_bindings, Scopes.run]
  · intro name value
    obtain ⟨after, stored, -⟩ := follows.storeLocal name value
    exact ⟨after, stored⟩
  · exact Variables.inLevelOrder_iff.mpr follows.table.ordered
  · exact follows.table.pairwise_name_or_level (Scopes.nodup_levels _)
  · intro name
    rw [follows.table.filter_visible, Scopes.head?_bindings, Scopes.run]

end LeveledTable

end Keystroke
