import Keystroke.Proofs.SplitAndJoin

/-!
# Edits in place

The edits of a library step by step, as they change the library in place: what was changed before a step
fails stays changed. Every check comes before the first change, so an edit that is refused leaves the
library as it was, and otherwise the library that is left is the edited one.
-/

namespace Keystroke

/-- Steps that change a library. -/
abbrev Editing := ExceptT Error (StateM Library)

namespace Editing

variable {α β : Type}

/-- Take the steps on a library: the outcome, and the library that is left. -/
def on (steps : Editing α) (library : Library) : Outcome α × Library :=
  steps.run.run library

variable (library : Library)

@[simp]
theorem on_pure (result : α) : Editing.on (pure result) library = (.ok result, library) :=
  rfl

@[simp]
theorem on_get : Editing.on get library = (.ok library, library) :=
  rfl

@[simp]
theorem on_modify (change : Library → Library) :
    Editing.on (modify change) library = (.ok (), change library) :=
  rfl

@[simp]
theorem on_lift (outcome : Outcome α) :
    Editing.on (liftM outcome) library = (outcome, library) := by
  cases outcome <;> rfl

@[simp]
theorem on_ite (condition : Prop) [Decidable condition] (first second : Editing α) :
    (if condition then first else second).on library =
      if condition then first.on library else second.on library := by
  split <;> rfl

@[simp]
theorem on_bind (steps : Editing α) (next : α → Editing β) :
    (steps >>= next).on library =
      match steps.on library with
      | (.ok result, after) => (next result).on after
      | (.error error, after) => (.error error, after) := by
  simp only [on, bind, ExceptT.bind, ExceptT.run, ExceptT.mk, StateT.bind, StateT.run]
  rcases steps library with ⟨_ | _, after⟩ <;> rfl

end Editing

namespace Library

/-- Put a program in front of the one at an index. -/
def insertProgram (library : Library) (index : Nat) (program : Program) : Library :=
  { library with
    programs := library.programs.take index ++ program :: library.programs.drop index }

/-- Take out the program at an index. -/
def eraseProgram (library : Library) (index : Nat) : Library :=
  { library with programs := library.programs.eraseIdx index }

/-- Take over the entries of another label table. -/
def withLabels (library other : Library) : Library := { library with labels := other.labels }

/-! ## The edits step by step -/

/-- Insert an instruction at an address. -/
def insertInPlace (index address : Nat) (instruction : Instruction) : Editing Unit := do
  let bytes ← Codec.encode instruction
  let before ← get
  let program ← before.existing index
  if program.isLocked then fail .programLocked
  else if program.endAddress < address then failWith .internalError "INSERT PAST END"
  else
    let program := program.emptyCaches
    modify (·.set index program)
    if instruction.isEnd then
      let tail : Program := ⟨program.text.drop address, false, false⟩
      modify (·.set index { program with text := program.text.take address })
      modify (·.set index { program with text := program.text.take address ++ bytes })
      modify (·.insertProgram (index + 1) tail)
      modify (·.set (index + 1) tail.emptyCaches)
      modify rebuild
    else
      modify (·.set index (program.insertBytes address bytes))
      if instruction.isGlobalLabel then modify rebuild
      -- the entries move by the size that the program had
      else modify (·.withLabels (before.shiftLabels index address bytes.length))

/-- Delete the instruction at an address, and answer whether it is gone. -/
def deleteInPlace (index address : Nat) : Editing Bool := do
  let before ← get
  let program ← before.existing index
  if program.size ≤ address then failWith .internalError "DELETE PAST END"
  else
    let decoded ← program.read address
    if decoded.instruction.isEnd then
      if index + 1 = before.count then return false
      else if program.isLocked then fail .programLocked
      else
        let next ← before.existing (index + 1)
        if next.isLocked then fail .nextProgramLocked
        else
          let program := program.emptyCaches
          let joined : Program :=
            { program with text := program.text.take address ++ next.text, cachesEmpty := false }
          modify (·.eraseProgram (index + 1))
          modify (·.set index program)
          modify (·.set index { program with text := program.text.take address })
          modify (·.set index { program with text := program.text.take address ++ next.text })
          modify (·.set index joined)
          modify (·.set index joined.emptyCaches)
          modify rebuild
          return true
    else if program.isLocked then fail .programLocked
    else
      let program := program.emptyCaches
      modify (·.set index program)
      modify (·.set index (program.removeBytes address decoded.length))
      if decoded.instruction.isGlobalLabel then modify rebuild
      else modify (·.withLabels (before.shiftLabels index address (-(decoded.length : Int))))
      return true

/-- Remove a program. -/
def clearInPlace (index : Nat) : Editing Unit := do
  let program ← (← get).existing index
  if program.isLocked then fail .programLocked
  else
    if (← get).count = 1 then modify (·.set 0 .empty)
    else
      modify (·.eraseProgram index)
      let rest ← get
      if index = rest.count ∧ (rest.get? (index - 1)).any (!·.isEmpty) then
        modify fun library => library.insertProgram library.count .empty
    modify rebuild

/-- Make sure that the last program is empty, and answer its index. -/
def openNewInPlace : Editing Nat := do
  let index := (← get).count - 1
  let last ← (← get).existing index
  if !last.isEmpty then insertInPlace index last.endAddress (.plain .endOfProgram)
  return (← get).count - 1

/-- What an edit answers, and the library that it leaves: the edited one, or the one before. -/
def settle {α : Type} (library : Library) (edited : Outcome (α × Library)) : Outcome α × Library :=
  match edited with
  | .ok (answer, next) => (.ok answer, next)
  | .error error => (.error error, library)

/-! ## What the steps lead to -/

variable {library : Library} {before after : List Program} {program : Program}

theorem set_set (library : Library) (index : Nat) (first second : Program) :
    (library.set index first).set index second = library.set index second := by
  simp [set]

/-- The steps that cut a program in two. -/
theorem rebuild_insertProgram (programs : library.programs = before ++ program :: after)
    (head tail edited : Program) :
    (((library.set before.length head).insertProgram (before.length + 1) tail).set
        (before.length + 1) edited).rebuild =
      ofPrograms (before ++ head :: edited :: after) := by
  simp [set, insertProgram, rebuild, programs, List.take_append, List.drop_append,
    List.take_of_length_le (Nat.le_succ before.length),
    List.drop_of_length_le (Nat.le_succ before.length)]

theorem insertInPlace_on (library : Library) (index address : Nat) (instruction : Instruction) :
    (insertInPlace index address instruction).on library =
      library.settle ((library.insert index address instruction).map fun next => ((), next)) := by
  rw [insertInPlace, insert]
  cases Codec.encode instruction with
  | error error => rfl
  | ok bytes =>
      cases found : library.existing index with
      | error error =>
          simp only [Editing.on_bind, Editing.on_lift, Editing.on_get, found]
          rfl
      | ok program =>
          obtain ⟨before, after, programs, rfl⟩ := exists_split_of_get? (existing_eq_ok.mp found)
          simp only [Editing.on_bind, Editing.on_lift, Editing.on_get, found, Editing.on_ite,
            Editing.on_modify, set_set, rebuild_insertProgram programs]
          simp only [bind, Except.bind]
          split
          · rfl
          split
          · rfl
          split
          · rw [split_eq programs]
            rfl
          · split
            · rfl
            · rfl

/-- The steps that join a program with the next one. -/
theorem rebuild_eraseProgram {next : Program}
    (programs : library.programs = before ++ program :: next :: after) (edited : Program) :
    ((library.eraseProgram (before.length + 1)).set before.length edited).rebuild =
      ofPrograms (before ++ edited :: after) := by
  simp [set, eraseProgram, rebuild, programs, List.eraseIdx_append_of_length_le]

theorem deleteInPlace_on (library : Library) (index address : Nat) :
    (deleteInPlace index address).on library = library.settle (library.delete index address) := by
  rw [deleteInPlace, delete]
  cases found : library.existing index with
  | error error =>
      simp only [Editing.on_bind, Editing.on_lift, Editing.on_get, found]
      rfl
  | ok program =>
      obtain ⟨before, after, programs, rfl⟩ := exists_split_of_get? (existing_eq_ok.mp found)
      simp only [Editing.on_bind, Editing.on_lift, Editing.on_get, found, Editing.on_ite,
        Editing.on_modify, Editing.on_pure, set_set]
      simp only [bind, Except.bind]
      split
      · rfl
      cases program.read address with
      | error error => rfl
      | ok decoded =>
      dsimp only
      split
      · cases after with
        | nil =>
            have isLast : before.length + 1 = library.count := by simp [count, programs]
            have noNext : library.get? (before.length + 1) = none := by simp [get?, programs]
            rw [if_pos isLast, noNext]
            rfl
        | cons next after =>
            have notLast : before.length + 1 ≠ library.count := by simp [count, programs]
            have isNext : library.get? (before.length + 1) = some next := by simp [get?, programs]
            rw [if_neg notLast, existing_eq_ok.mpr isNext, isNext]
            simp only [rebuild_eraseProgram programs, join_eq programs]
            split
            · rfl
            split
            · rfl
            · rfl
      split
      · rfl
      split
      · rfl
      · rfl

/-- The last of the programs that are left is the one in front of the place behind them. -/
theorem needsEmpty_iff {rest : List Program} (nonempty : rest ≠ []) (index : Nat) :
    (index = rest.length ∧ (rest[index - 1]?).any (!·.isEmpty) = true) ↔
      (rest.isEmpty || (index = rest.length &&
        !((rest.getLast?.map Program.isEmpty).getD false))) = true := by
  obtain ⟨front, last, rfl⟩ := (List.eq_nil_or_concat rest).resolve_left nonempty
  rw [List.concat_eq_append, List.getLast?_concat]
  simp +contextual

theorem clearInPlace_on (library : Library) (index : Nat) :
    (clearInPlace index).on library =
      library.settle ((library.clear index).map fun next => ((), next)) := by
  rw [clearInPlace, clear]
  cases found : library.existing index with
  | error error =>
      simp only [Editing.on_bind, Editing.on_lift, Editing.on_get, found]
      rfl
  | ok program =>
      obtain ⟨before, after, programs, rfl⟩ := exists_split_of_get? (existing_eq_ok.mp found)
      simp only [Editing.on_bind, Editing.on_lift, Editing.on_get, found, Editing.on_ite,
        Editing.on_modify]
      simp only [bind, Except.bind]
      split
      · rfl
      by_cases single : library.count = 1
      · obtain ⟨rfl, rfl⟩ : before = [] ∧ after = [] := by
          rw [count, programs, List.length_append, List.length_cons] at single
          exact ⟨List.eq_nil_of_length_eq_zero (by omega), List.eq_nil_of_length_eq_zero (by omega)⟩
        simp [single, programs, set, rebuild, settle, Except.map, pure, Except.pure]
      · -- the steps look at the program in front of the place, the edit at the last one
        have nonempty : library.programs.eraseIdx before.length ≠ [] := by
          rw [Ne, List.eraseIdx_eq_nil_iff]
          rintro (empty | ⟨one, -⟩)
          · simp [programs] at empty
          · exact single one
        rw [if_neg single]
        have same := needsEmpty_iff nonempty before.length
        simp only [count, get?, eraseProgram, insertProgram, rebuild, List.take_length,
          List.drop_length, same]
        split <;> rfl

theorem openNewInPlace_on (library : Library) :
    openNewInPlace.on library = library.settle library.openNew := by
  rw [openNewInPlace, openNew]
  simp only [Editing.on_bind, Editing.on_get, Editing.on_lift]
  cases found : library.existing (library.count - 1) with
  | error error => rfl
  | ok last =>
      simp only [Editing.on_ite, Editing.on_pure, Editing.on_bind, insertInPlace_on]
      simp only [bind, Except.bind]
      cases last.isEmpty with
      | true => rfl
      | false =>
          cases library.insert (library.count - 1) last.endAddress (.plain .endOfProgram) with
          | error error => rfl
          | ok extended => rfl

/-! ## Any edit -/

/-- Take the steps of an edit, and answer whether it was made. -/
def Edit.inPlace : Edit → Editing Bool
  | .insert index address instruction => do
    insertInPlace index address instruction
    return true
  | .delete index address => deleteInPlace index address
  | .clear index => do
    clearInPlace index
    return true
  | .openNew => do
    let _ ← openNewInPlace
    return true
  | .setLocked index isLocked => do
    modify (·.setLocked index isLocked)
    return true
  | .rebuild => do
    modify (·.rebuild)
    return true
  | .fetch index address wantTarget => do
    let (_, fetched) ← (← get).fetch index address wantTarget
    modify fun _ => fetched
    return true

/-- Whether an edit is made, or why it fails. -/
def answer (library : Library) : Edit → Outcome Bool
  | .insert index address instruction =>
    (library.insert index address instruction).map fun _ => true
  | .delete index address => (library.delete index address).map (·.1)
  | .clear index => (library.clear index).map fun _ => true
  | .openNew => library.openNew.map fun _ => true
  | .setLocked _ _ | .rebuild => .ok true
  | .fetch index address wantTarget => (library.fetch index address wantTarget).map fun _ => true

/-- The steps of an edit lead to the edited library. -/
theorem inPlace_on (library : Library) (edit : Edit) :
    edit.inPlace.on library = (library.answer edit, library.apply edit) := by
  cases edit with
  | insert index address instruction =>
      rw [Edit.inPlace, Editing.on_bind, insertInPlace_on, answer, apply]
      cases library.insert index address instruction <;> rfl
  | delete index address =>
      rw [Edit.inPlace, deleteInPlace_on, answer, apply]
      cases library.delete index address <;> rfl
  | clear index =>
      rw [Edit.inPlace, Editing.on_bind, clearInPlace_on, answer, apply]
      cases library.clear index <;> rfl
  | openNew =>
      rw [Edit.inPlace, Editing.on_bind, openNewInPlace_on, answer, apply]
      cases library.openNew <;> rfl
  | setLocked index isLocked => rfl
  | rebuild => rfl
  | fetch index address wantTarget =>
      rw [Edit.inPlace, Editing.on_bind, Editing.on_get, answer, apply]
      dsimp only
      rw [Editing.on_bind, Editing.on_lift]
      cases library.fetch index address wantTarget <;> rfl

theorem exists_error {α : Type} {outcome : Outcome α}
    (refused : outcome.map (fun _ => true) ≠ .ok true) : ∃ error, outcome = .error error := by
  cases outcome with
  | error error => exact ⟨error, rfl⟩
  | ok result => exact absurd rfl refused

/-- An edit that is not made leaves the library as it is. -/
theorem apply_of_refused {edit : Edit} (refused : library.answer edit ≠ .ok true) :
    library.apply edit = library := by
  cases edit with
  | insert index address instruction =>
      obtain ⟨error, failed⟩ := exists_error refused
      rw [apply, failed]
      rfl
  | delete index address =>
      rw [answer] at refused
      rw [apply]
      cases deleted : library.delete index address with
      | error error => rfl
      | ok result =>
          obtain ⟨program, decoded, -, -, cases⟩ := delete_eq_ok deleted
          rw [deleted] at refused
          rcases cases with ⟨-, rfl⟩ | ⟨-, -, next, -, -, rfl⟩ | ⟨-, -, rfl⟩
          · rfl
          · exact absurd rfl refused
          · exact absurd rfl refused
  | clear index =>
      obtain ⟨error, failed⟩ := exists_error refused
      rw [apply, failed]
      rfl
  | openNew =>
      obtain ⟨error, failed⟩ := exists_error refused
      rw [apply, failed]
      rfl
  | setLocked index isLocked => exact absurd rfl refused
  | rebuild => exact absurd rfl refused
  | fetch index address wantTarget =>
      obtain ⟨error, failed⟩ := exists_error refused
      rw [apply, failed]
      rfl

end Library

end Keystroke
