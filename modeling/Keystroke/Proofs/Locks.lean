import Keystroke.Proofs.EditsInPlace

/-!
# Refused edits and locks

An edit that is refused changes nothing. An edit that is made replaces some programs, none of them locked,
by others that are not locked either, so the locked programs of a library stay what they are, in their
order. Only reading them for execution fills their jump caches.
-/

namespace Keystroke

namespace Program

/-! ## Caches that are filled -/

/-- Programs that differ in jump caches only, where what one remembers the other remembers too. -/
structure FillsCaches (program other : Program) : Prop extends SameButCaches program other where
  remembers {line : Nat × Codec.Decoded} (isLine : line ∈ program.lines) {place target : Nat}
    (cache : line.2.cache = some place)
    (filled : Codec.readCache program.text place = some target) :
    Codec.readCache other.text place = some target

theorem FillsCaches.refl (program : Program) : FillsCaches program program :=
  ⟨.refl program, fun _ _ _ _ filled => filled⟩

theorem FillsCaches.trans {program other third : Program} (first : FillsCaches program other)
    (second : FillsCaches other third) : FillsCaches program third := by
  refine ⟨first.toSameButCaches.trans second.toSameButCaches, fun isLine _ _ cache filled => ?_⟩
  exact second.remembers (first.lines_eq ▸ isLine) cache (first.remembers isLine cache filled)

theorem FillsCaches.isLocked {program other : Program} (fills : FillsCaches program other) :
    program.isLocked = true ↔ other.isLocked = true := by
  rw [fills.isLocked_eq]

/-- Reading a line for execution fills its cache or does nothing. -/
theorem fillsCaches_fetch {program : Program} {line : Nat × Codec.Decoded}
    (isLine : line ∈ program.lines)
    (within : ∀ place, line.2.cache = some place → place + Codec.cacheLength ≤ program.size)
    {wantTarget : Bool} {fetched : Fetched × Program}
    (isFetched : program.fetch line.1 wantTarget = .ok fetched) : FillsCaches program fetched.2 := by
  rcases fetch_eq_or_writes isFetched with
    same | ⟨place, target, cache, empty, -, written⟩
  · rw [same]
    exact .refl program
  · have read := decode_of_mem_linesFrom isLine
    rw [decode, ← read] at cache
    rw [written]
    refine ⟨sameButCaches_writeCache isLine cache (within place cache) (some target) false, ?_⟩
    intro other isOther otherPlace remembered otherCache filled
    -- the cache that is written was empty, so it is not the one that is remembered
    have ne : line ≠ other := by
      rintro rfl
      obtain rfl := Option.some.inj (cache.symm.trans otherCache)
      rw [empty] at filled
      cases filled
    have atEnd := Codec.decode_cache (read ▸ cache)
    have otherAtEnd := Codec.decode_cache (decode_of_mem_linesFrom isOther ▸ otherCache)
    rw [← read] at atEnd
    rw [← decode_of_mem_linesFrom isOther] at otherAtEnd
    rw [Codec.readCache_writeCache_of_apart (within place cache) ?_ (some target)]
    · exact filled
    · rcases apart_of_ne isLine isOther ne with before | after <;> omega

@[simp]
theorem emptyCaches_isLocked (program : Program) :
    program.emptyCaches.isLocked = program.isLocked := by
  unfold emptyCaches
  split <;> rfl

end Program

namespace Library

/-- The locked programs, in their order. -/
def locked (library : Library) : List Program := library.programs.filter (·.isLocked)

/-! ## What an edit replaces -/

/-- Some programs, none of them locked, were replaced by others that are not locked. -/
structure ReplacesUnlocked (library next : Library) (before old new after : List Program) :
    Prop where
  programs_eq : library.programs = before ++ (old ++ after)
  edited_eq : next.programs = before ++ (new ++ after)
  unlocked : ∀ program ∈ old ++ new, program.isLocked = false

theorem ReplacesUnlocked.locked_eq {library next : Library} {before old new after : List Program}
    (replaces : ReplacesUnlocked library next before old new after) :
    next.locked = library.locked := by
  have unlocked := replaces.unlocked
  have noOld : old.filter (·.isLocked) = [] := by
    simpa using fun program member => unlocked program (List.mem_append_left new member)
  have noNew : new.filter (·.isLocked) = [] := by
    simpa using fun program member => unlocked program (List.mem_append_right old member)
  rw [locked, locked, replaces.programs_eq, replaces.edited_eq]
  simp only [List.filter_append, noOld, noNew]

variable {library next : Library} {index address : Nat} {before after : List Program}
  {program : Program}

theorem locked_set (programs : library.programs = before ++ program :: after)
    (unlocked : program.isLocked = false) {edited : Program}
    (editedUnlocked : edited.isLocked = false)
    (result : next.programs = before ++ edited :: after) : next.locked = library.locked := by
  have replaces : ReplacesUnlocked library next before [program] [edited] after :=
    ⟨programs, result, by simp [unlocked, editedUnlocked]⟩
  exact replaces.locked_eq

theorem locked_insert {instruction : Instruction}
    (inserted : library.insert index address instruction = .ok next) :
    next.locked = library.locked := by
  obtain ⟨bytes, program, -, found, unlocked, result⟩ := insert_eq_ok inserted
  obtain ⟨before, after, programs, rfl⟩ := exists_split_of_get? found
  split at result
  · rw [split_eq programs] at result
    have replaces : ReplacesUnlocked library next before [program] [_, _] after :=
      ⟨programs, by rw [result]; rfl, by simp [unlocked]⟩
    exact replaces.locked_eq
  · have edited : (program.emptyCaches.insertBytes address bytes).isLocked = false := by
      simp [Program.insertBytes, unlocked]
    refine locked_set programs unlocked edited ?_
    rw [result]
    split
    · exact set_eq_of_split programs _
    · simp [set, shiftLabels, programs]

theorem locked_delete {result : Bool × Library}
    (deleted : library.delete index address = .ok result) : result.2.locked = library.locked := by
  obtain ⟨program, decoded, found, -, cases⟩ := delete_eq_ok deleted
  obtain ⟨before, after, programs, rfl⟩ := exists_split_of_get? found
  rcases cases with ⟨-, same⟩ | ⟨-, unlocked, next, isNext, nextUnlocked, joined⟩ |
    ⟨-, unlocked, removed⟩
  · rw [same]
  · obtain ⟨after, rfl⟩ := exists_next programs isNext
    rw [join_eq programs] at joined
    have replaces : ReplacesUnlocked library result.2 before [program, next] [_] after :=
      ⟨programs, by rw [joined]; rfl, by simp [unlocked, nextUnlocked]⟩
    exact replaces.locked_eq
  · have edited : (program.emptyCaches.removeBytes address decoded.length).isLocked = false := by
      simp [Program.removeBytes, unlocked]
    refine locked_set programs unlocked edited ?_
    rw [removed]
    split
    · exact set_eq_of_split programs _
    · simp [set, shiftLabels, programs]

theorem locked_clear (cleared : library.clear index = .ok next) :
    next.locked = library.locked := by
  unfold clear at cleared
  cases found : library.existing index with
  | error error => simp [found, bind, Except.bind] at cleared
  | ok program =>
      obtain ⟨before, after, programs, rfl⟩ := exists_split_of_get? (existing_eq_ok.mp found)
      have rest : library.programs.eraseIdx before.length = before ++ after := by
        simp [programs, List.eraseIdx_append_of_length_le]
      simp only [found, bind, Except.bind, rest] at cleared
      split at cleared
      · cases cleared
      · next locked =>
          have unlocked : program.isLocked = false := by simpa using locked
          split at cleared
          · next needsEmpty =>
              cases after with
              | cons next after =>
                  -- an empty program takes the place of the last one only
                  simp at needsEmpty
              | nil =>
                  obtain rfl := Except.ok.inj cleared
                  have isNew : Program.empty.isLocked = false := rfl
                  exact locked_set programs unlocked isNew (by simp [ofPrograms])
          · obtain rfl := Except.ok.inj cleared
            have replaces : ReplacesUnlocked library (ofPrograms (before ++ after))
                before [program] [] after := ⟨programs, rfl, by simp [unlocked]⟩
            exact replaces.locked_eq

theorem locked_openNew {result : Nat × Library} (opened : library.openNew = .ok result) :
    result.2.locked = library.locked := by
  unfold openNew at opened
  cases found : library.existing (library.count - 1) with
  | error error => simp [found, bind, Except.bind] at opened
  | ok last =>
      simp only [found, bind, Except.bind] at opened
      split at opened
      · obtain rfl := Except.ok.inj opened
        rfl
      · cases inserted : library.insert (library.count - 1) last.endAddress
            (.plain .endOfProgram) with
        | error error => simp [inserted] at opened
        | ok extended =>
            simp only [inserted] at opened
            obtain rfl := Except.ok.inj opened
            exact locked_insert inserted

/-! ## Any edits -/

/-- Edits that leave all locks as they are; of the fetches only those of a line whose cache, if it has
one, is inside of the program. -/
def KeepsLocks (library : Library) : Edit → Prop
  | .fetch index address _ => ∀ program, library.get? index = some program →
    ∃ line ∈ program.lines, line.1 = address ∧
      ∀ place, line.2.cache = some place → place + Codec.cacheLength ≤ program.size
  | .setLocked _ _ => False
  | _ => True

/-- Whether an edit changes programs, and not only reads them. -/
def Edit.isOfText : Edit → Bool
  | .insert _ _ _ | .delete _ _ | .clear _ | .openNew => true
  | .setLocked _ _ | .rebuild | .fetch _ _ _ => false

/-- One edit that leaves all locks as they are. -/
def Step (library next : Library) : Prop :=
  ∃ edit, library.KeepsLocks edit ∧ next = library.apply edit

theorem locked_apply (library : Library) {edit : Edit} (ofText : edit.isOfText = true) :
    (library.apply edit).locked = library.locked := by
  cases edit with
  | insert index address instruction =>
      rw [apply]
      cases inserted : library.insert index address instruction with
      | error error => rfl
      | ok next => exact locked_insert inserted
  | delete index address =>
      rw [apply]
      cases deleted : library.delete index address with
      | error error => rfl
      | ok result => exact locked_delete deleted
  | clear index =>
      rw [apply]
      cases cleared : library.clear index with
      | error error => rfl
      | ok next => exact locked_clear cleared
  | openNew =>
      rw [apply]
      cases opened : library.openNew with
      | error error => rfl
      | ok result => exact locked_openNew opened
  | setLocked index isLocked => cases ofText
  | rebuild => cases ofText
  | fetch index address wantTarget => cases ofText

/-- A program that is read for execution has its caches filled, and all others stay what they are. -/
theorem forall₂_fetch {wantTarget : Bool}
    (keeps : library.KeepsLocks (.fetch index address wantTarget)) :
    List.Forall₂ Program.FillsCaches library.programs
      (library.apply (.fetch index address wantTarget)).programs := by
  rw [apply]
  cases fetched : library.fetch index address wantTarget with
  | error error => exact List.forall₂_same.mpr fun program _ => .refl program
  | ok result =>
      obtain ⟨program, ⟨instruction, left⟩, found, isFetched, rfl⟩ := fetch_eq_ok fetched
      obtain ⟨line, isLine, rfl, within⟩ := keeps program found
      obtain ⟨before, after, programs, rfl⟩ := exists_split_of_get? found
      have edited : (library.set before.length left).programs = before ++ left :: after :=
        set_eq_of_split programs left
      change List.Forall₂ Program.FillsCaches library.programs (library.set before.length left).programs
      rw [edited, programs]
      refine List.rel_append ?_ (.cons ?_ ?_)
      · exact List.forall₂_same.mpr fun program _ => .refl program
      · exact Program.fillsCaches_fetch isLine within isFetched
      · exact List.forall₂_same.mpr fun program _ => .refl program

theorem Step.forall₂_locked (step : library.Step next) :
    List.Forall₂ Program.FillsCaches library.locked next.locked := by
  obtain ⟨edit, keeps, rfl⟩ := step
  have unchanged : (library.apply edit).locked = library.locked →
      List.Forall₂ Program.FillsCaches library.locked (library.apply edit).locked := by
    intro same
    rw [same]
    exact List.forall₂_same.mpr fun program _ => .refl program
  cases edit with
  | fetch index address wantTarget =>
      exact List.rel_filter (fun _ _ fills => fills.isLocked) (forall₂_fetch keeps)
  | setLocked index isLocked => exact keeps.elim
  | rebuild => exact unchanged rfl
  | _ => exact unchanged (locked_apply library rfl)

theorem forall₂_trans {first second third : List Program}
    (start : List.Forall₂ Program.FillsCaches first second)
    (further : List.Forall₂ Program.FillsCaches second third) :
    List.Forall₂ Program.FillsCaches first third := by
  induction start generalizing third with
  | nil => exact further
  | cons here _ ih =>
      cases further with
      | cons there further => exact .cons (here.trans there) (ih further)

/-- The caches of the lines of a consistent library are inside of their programs. -/
theorem IsConsistent.keepsLocks_fetch {permitted : Codec.Decoded → Prop}
    (consistent : IsConsistent permitted library) (atLine : library.IsLineAddress index address)
    (wantTarget : Bool) : library.KeepsLocks (.fetch index address wantTarget) := by
  intro program found
  obtain ⟨line, isLine, isAddress⟩ := atLine program found
  obtain ⟨chunks, hasLines, -⟩ := consistent.isSound program (List.mem_of_getElem? found)
  exact ⟨line, isLine, isAddress, fun place cache => (hasLines.cache_at_end isLine cache).2.2⟩

/-- The locked programs stay what they are over any edits. -/
theorem forall₂_locked (steps : Relation.ReflTransGen Step library next) :
    List.Forall₂ Program.FillsCaches library.locked next.locked := by
  induction steps with
  | refl => exact List.forall₂_same.mpr fun program _ => .refl program
  | tail _ step ih => exact forall₂_trans ih step.forall₂_locked

/-- An edit that is taken step by step and refused, with an error or with the answer that nothing was
deleted, leaves the whole library as it was. No insertion, no deletion and no clearing or opening of a
program, at whatever address, changes the locked programs or their order; over any sequence of such edits
they keep all bytes but those of jump caches, which are filled when their lines are read for execution and
are never emptied. -/
theorem refused_edits_and_locked_programs :
    (∀ (library : Library) (edit : Edit),
      edit.inPlace.on library = (library.answer edit, library.apply edit) ∧
        (library.answer edit ≠ .ok true → (edit.inPlace.on library).2 = library)) ∧
    (∀ (library : Library) (edit : Edit), edit.isOfText = true →
      (edit.inPlace.on library).2.locked = library.locked) ∧
    (∀ library next : Library, Relation.ReflTransGen Step library next →
      List.Forall₂ Program.FillsCaches library.locked next.locked) ∧
    ∀ library : Library, Reachable Admits library → ∀ index address wantTarget,
      library.IsLineAddress index address →
        library.KeepsLocks (.fetch index address wantTarget) := by
  refine ⟨fun library edit => ⟨inPlace_on library edit, fun refused => ?_⟩,
    fun library edit ofText => ?_, fun library next steps => forall₂_locked steps,
    fun library reachable index address wantTarget atLine => ?_⟩
  · rw [inPlace_on, apply_of_refused refused]
  · rw [inPlace_on, locked_apply library ofText]
  · exact reachable.isConsistent_of_admits.keepsLocks_fetch atLine wantTarget

/-- A locked program that is not edited, and that remembers the target of its jump once that is read. -/
theorem locked_program_among_edits :
    let library := jumpAndLabel.apply (.setLocked 0 true)
    let label : Instruction := ⟨.label, .direct (.number 1)⟩
    let next := (library.apply (.insert 1 0 label)).apply (.fetch 0 0 true)
    library.answer (.delete 0 0) = fail .programLocked ∧
      ((Edit.delete 0 0).inPlace.on library).2 = library ∧
      ((Edit.insert 1 0 label).inPlace.on library).2.locked = library.locked ∧
      library.locked.length = 1 ∧ next.locked ≠ library.locked ∧
      List.Forall₂ Program.FillsCaches library.locked next.locked := by
  intro library label next
  obtain ⟨refused, ofText, steps, atLine⟩ := refused_edits_and_locked_programs
  have before : Reachable Admits library := .edited reachable_jumpAndLabel trivial
  have reachable : Reachable Admits (library.apply (.insert 1 0 label)) :=
    .edited before (show library.Admits (.insert 1 0 label) by decide +kernel)
  have isRefused : library.answer (.delete 0 0) = fail .programLocked := by decide +kernel
  have inserted : library.Step (library.apply (.insert 1 0 label)) :=
    ⟨.insert 1 0 label, trivial, rfl⟩
  have fetched : (library.apply (.insert 1 0 label)).Step next :=
    ⟨.fetch 0 0 true, atLine _ reachable 0 0 true (by decide +kernel), rfl⟩
  refine ⟨isRefused, (refused library (.delete 0 0)).2 ?_, ofText library _ rfl, ?_, ?_,
    steps library next (.tail (.single inserted) fetched)⟩
  · rw [isRefused]
    exact fun made => nomatch made
  · decide +kernel
  · decide +kernel

end Library

end Keystroke
