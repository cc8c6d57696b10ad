import Keystroke.Proofs.LabelTable

/-!
# Edits of the library

Every edit of a library leaves programs that are as they were, that remember one jump target more, or
whose jump caches are all empty. From this it follows by induction what holds of every library that any
edits lead to: the programs are well formed, and the label table is the one that would be built anew.
-/

namespace Keystroke

namespace Library

/-! ## Edits -/

/-- One edit of a library. -/
inductive Edit where
  | insert (program address : Nat) (instruction : Instruction)
  | delete (program address : Nat)
  | clear (program : Nat)
  | openNew
  | setLocked (program : Nat) (isLocked : Bool)
  | rebuild
  /-- Reading a line for execution may remember a jump target. -/
  | fetch (program address : Nat) (wantTarget : Bool)
deriving DecidableEq

/-- The library after an edit; one that fails changes nothing. -/
def apply (library : Library) : Edit → Library
  | .insert program address instruction =>
    (library.insert program address instruction).toOption.getD library
  | .delete program address => ((library.delete program address).toOption.map (·.2)).getD library
  | .clear program => (library.clear program).toOption.getD library
  | .openNew => (library.openNew.toOption.map (·.2)).getD library
  | .setLocked program isLocked => library.setLocked program isLocked
  | .rebuild => library.rebuild
  | .fetch program address wantTarget =>
    ((library.fetch program address wantTarget).toOption.map (·.2)).getD library

/-- Whether an address is that of a line, if the program exists. -/
def IsLineAddress (library : Library) (index address : Nat) : Prop :=
  ∀ program, library.get? index = some program → ∃ line ∈ program.lines, line.1 = address

/-- Edits that put in only lines that are permitted. -/
def Edit.KeepsTo (permitted : Codec.Decoded → Prop) : Edit → Prop
  | .insert _ _ instruction => instruction.isEnd = false →
    ∀ bytes, Codec.encode instruction = .ok bytes → permitted (Codec.decode bytes 0)
  | _ => True

/-- Edits that are at the address of a line and put in no end with an argument. -/
def Admits (library : Library) : Edit → Prop
  | .insert program address instruction =>
    library.IsLineAddress program address ∧ (instruction.isEnd → instruction.argument = .none)
  | .delete program address | .fetch program address _ => library.IsLineAddress program address
  | .clear _ | .openNew | .setLocked _ _ | .rebuild => True

instance (library : Library) (index address : Nat) :
    Decidable (library.IsLineAddress index address) :=
  match found : library.get? index with
  | none => isTrue (by simp [IsLineAddress, found])
  | some program =>
    decidable_of_iff (∃ line ∈ program.lines, line.1 = address) (by simp [IsLineAddress, found])

instance (library : Library) : (edit : Edit) → Decidable (library.Admits edit)
  | .insert program address instruction =>
    inferInstanceAs (Decidable (library.IsLineAddress program address ∧
      (instruction.isEnd → instruction.argument = .none)))
  | .delete program address => inferInstanceAs (Decidable (library.IsLineAddress program address))
  | .fetch program address _ => inferInstanceAs (Decidable (library.IsLineAddress program address))
  | .clear _ | .openNew | .setLocked _ _ | .rebuild => isTrue trivial

/-- The libraries that edits lead to from one empty program. -/
inductive Reachable (allowed : Library → Edit → Prop) : Library → Prop
  | initial : Reachable allowed initial
  | edited {library : Library} {edit : Edit} (reachable : Reachable allowed library)
    (isAllowed : allowed library edit) : Reachable allowed (library.apply edit)

/-! ## What an edit leaves -/

variable {permitted : Codec.Decoded → Prop}

/-- Where a program of an edited library comes from. -/
inductive ComesFrom (permitted : Codec.Decoded → Prop) (programs : List Program) : Program → Prop
  | kept {program : Program} (member : program ∈ programs) (isLocked : Bool) :
    ComesFrom permitted programs { program with isLocked }
  | fetched {program : Program} (member : program ∈ programs) {line : Nat × Codec.Decoded}
    (isLine : line ∈ program.lines) {wantTarget : Bool} {fetched : Program.Fetched × Program}
    (isFetched : program.fetch line.1 wantTarget = .ok fetched) : ComesFrom permitted programs fetched.2
  | edited {program : Program} (clean : program.IsClean permitted) :
    ComesFrom permitted programs program

/-- A library of sound programs, at least one, with the label table that belongs to them. -/
structure IsConsistent (permitted : Codec.Decoded → Prop) (library : Library) : Prop where
  nonempty : library.programs ≠ []
  isSound : ∀ program ∈ library.programs, program.IsSound permitted
  labels_eq : library.labels = labelsFrom 0 library.programs

/-- What holds of a library after an edit of another one. -/
structure Follows (permitted : Codec.Decoded → Prop) (library next : Library) : Prop where
  nonempty : next.programs ≠ []
  comesFrom : ∀ program ∈ next.programs, ComesFrom permitted library.programs program
  labels_eq : next.labels = labelsFrom 0 next.programs

theorem ComesFrom.of_mem {programs : List Program} {program : Program}
    (member : program ∈ programs) : ComesFrom permitted programs program :=
  .kept member program.isLocked

theorem ComesFrom.isSound {programs : List Program} {program : Program}
    (comesFrom : ComesFrom permitted programs program)
    (sound : ∀ program ∈ programs, program.IsSound permitted) :
    program.IsSound permitted := by
  cases comesFrom with
  | @kept old member isLocked =>
      change old.IsSound permitted
      exact sound old member
  | fetched member isLine isFetched => exact (sound _ member).fetch isLine isFetched
  | edited clean => exact clean.isSound

theorem Follows.isConsistent {library next : Library} (follows : Follows permitted library next)
    (consistent : IsConsistent permitted library) : IsConsistent permitted next :=
  ⟨follows.nonempty,
    fun program member => (follows.comesFrom program member).isSound consistent.isSound,
    follows.labels_eq⟩

theorem IsConsistent.follows_self {library : Library}
    (consistent : IsConsistent permitted library) :
    Follows permitted library library :=
  ⟨consistent.nonempty, fun _ member => .of_mem member, consistent.labels_eq⟩

/-- A library that is built from some programs has the table that belongs to them. -/
theorem follows_ofPrograms {library : Library} {programs : List Program} (nonempty : programs ≠ [])
    (comesFrom : ∀ program ∈ programs, ComesFrom permitted library.programs program) :
    Follows permitted library (ofPrograms programs) :=
  ⟨nonempty, comesFrom, rfl⟩

/-- A program of a library stands between those in front of it and those behind it. -/
theorem exists_split_of_get? {library : Library} {index : Nat} {program : Program}
    (found : library.get? index = some program) :
    ∃ before after, library.programs = before ++ program :: after ∧ before.length = index := by
  obtain ⟨within, rfl⟩ := List.getElem?_eq_some_iff.mp found
  refine ⟨library.programs.take index, library.programs.drop (index + 1), ?_, ?_⟩
  · rw [← List.drop_eq_getElem_cons within, List.take_append_drop]
  · rw [List.length_take_of_le (Nat.le_of_lt within)]

theorem existing_eq_ok {library : Library} {index : Nat} {program : Program} :
    library.existing index = .ok program ↔ library.get? index = some program := by
  rw [existing]
  cases library.get? index <;> simp [fail]

/-! ## Inserting -/

theorem insert_eq_ok {library next : Library} {index address : Nat} {instruction : Instruction}
    (inserted : library.insert index address instruction = .ok next) :
    ∃ bytes program, Codec.encode instruction = .ok bytes ∧ library.get? index = some program ∧
      program.isLocked = false ∧ next =
        if instruction.isEnd then library.split index program.emptyCaches address bytes
        else if instruction.isGlobalLabel then
          (library.set index (program.emptyCaches.insertBytes address bytes)).rebuild
        else (library.shiftLabels index address bytes.length).set index
          (program.emptyCaches.insertBytes address bytes) := by
  rw [insert] at inserted
  cases encoded : Codec.encode instruction with
  | error error => simp [encoded, bind, Except.bind] at inserted
  | ok bytes =>
      cases found : library.existing index with
      | error error => simp [encoded, found, bind, Except.bind] at inserted
      | ok program =>
          simp only [encoded, found, bind, Except.bind] at inserted
          refine ⟨bytes, program, rfl, existing_eq_ok.mp found, ?_⟩
          split at inserted
          · cases inserted
          · next unlocked =>
              refine ⟨by simpa using unlocked, ?_⟩
              split at inserted
              · cases inserted
              · split at inserted
                · next isEnd =>
                    rw [if_pos isEnd]
                    exact (Except.ok.inj inserted).symm
                · next noEnd =>
                    rw [if_neg noEnd]
                    exact (Except.ok.inj inserted).symm

/-- A line that is no label and no end has no entry. -/
theorem labelOfLine?_eq_none {decoded : Codec.Decoded}
    (noLabel : decoded.instruction.isGlobalLabel = false)
    (noEnd : decoded.instruction.isEnd = false) (index address : Nat) :
    labelOfLine? index (address, decoded.movedBy address) = none := by
  simp [labelOfLine?, noLabel, noEnd]

section

variable {library : Library} {before after : List Program} {program : Program}
  {front behind : List (List UInt8)} {chunk : List UInt8}

theorem lt_of_mem_front (hasLines : Program.HasLines permitted program.text (front ++ behind))
    (index : Nat) :
    ∀ label ∈ (Program.placed 0 front).filterMap (labelOfLine? index),
      label.address < front.flatten.length := by
  intro label member
  obtain ⟨line, isPlaced, -, address⟩ := mem_filterMap_placed member
  have bound := Program.address_lt_of_mem_placed
    (fun chunk member => (hasLines.isLine_front chunk member).complete) isPlaced
  omega

/-- The entries at and behind a cut are inside the program. -/
theorem le_size_of_mem_behind (hasLines : Program.HasLines permitted program.text (front ++ behind))
    (index : Nat) :
    ∀ label ∈ (Program.placed front.flatten.length (behind ++ [Program.endBytes])).filterMap
      (labelOfLine? index),
      front.flatten.length ≤ label.address ∧ label.address ≤ program.size := by
  intro label member
  obtain ⟨line, isPlaced, -, address⟩ := mem_filterMap_placed member
  have isProgramLine : line ∈ Program.placed 0 (front ++ behind ++ [Program.endBytes]) := by
    rw [← hasLines.lines_eq, hasLines.lines_append]
    exact List.mem_append_right _ isPlaced
  have upper := Program.address_lt_of_mem_placed hasLines.complete isProgramLine
  have lower := Program.le_address_of_mem_placed isPlaced
  rw [← hasLines.text_eq_flatten] at upper
  rw [Program.size]
  omega

/-- Inserting a line that is no label moves the entries at and behind it. -/
theorem labels_insertBytes (programs : library.programs = before ++ program :: after)
    (labels : library.labels = labelsFrom 0 library.programs)
    (hasLines : Program.HasLines permitted program.text (front ++ behind))
    (isLine : Program.IsLine permitted chunk)
    (noLabel : (Codec.decode chunk 0).instruction.isGlobalLabel = false) :
    (library.shiftLabels before.length front.flatten.length chunk.length).labels =
      labelsFrom 0 (before ++
        program.emptyCaches.insertBytes front.flatten.length chunk :: after) := by
  have entries : program.lines.filterMap (labelOfLine? before.length) =
      (Program.placed 0 front).filterMap (labelOfLine? before.length) ++
        (Program.placed front.flatten.length (behind ++ [Program.endBytes])).filterMap
          (labelOfLine? before.length) := by
    rw [hasLines.lines_append, List.filterMap_append]
  have inside := le_size_of_mem_behind hasLines before.length
  have moved : ((Program.placed front.flatten.length (behind ++ [Program.endBytes])).filterMap
      (labelOfLine? before.length)).map (fun label =>
        { label with address := movedAddress program.size label.address chunk.length }) =
      (Program.placed (front.flatten.length + chunk.length)
        (behind ++ [Program.endBytes])).filterMap (labelOfLine? before.length) := by
    rw [filterMap_placed_add]
    refine List.map_congr_left fun label member => ?_
    rw [movedAddress_add (inside label member).2]
  rw [labels_shiftLabels programs labels entries (lt_of_mem_front hasLines _)
      (fun label member => (inside label member).1), moved, labelsFrom_append, labelsFrom,
    Nat.zero_add, hasLines.lines_insertBytes isLine, List.filterMap_append, List.filterMap_cons,
    labelOfLine?_eq_none noLabel isLine.noEnd, List.append_assoc]

/-- Deleting a line that is no label moves the entries behind it. -/
theorem labels_removeBytes (programs : library.programs = before ++ program :: after)
    (labels : library.labels = labelsFrom 0 library.programs)
    (hasLines : Program.HasLines permitted program.text (front ++ chunk :: behind))
    (noLabel : (Codec.decode chunk 0).instruction.isGlobalLabel = false) :
    (library.shiftLabels before.length front.flatten.length (-(chunk.length : Int))).labels =
      labelsFrom 0 (before ++
        program.emptyCaches.removeBytes front.flatten.length chunk.length :: after) := by
  have behindLine : (Program.placed front.flatten.length
      (chunk :: behind ++ [Program.endBytes])).filterMap (labelOfLine? before.length) =
        ((Program.placed front.flatten.length (behind ++ [Program.endBytes])).filterMap
          (labelOfLine? before.length)).map
            fun label => { label with address := label.address + chunk.length } := by
    rw [List.cons_append, Program.placed, List.filterMap_cons,
      labelOfLine?_eq_none noLabel (hasLines.isLine chunk (by simp)).noEnd, filterMap_placed_add]
  have entries : program.lines.filterMap (labelOfLine? before.length) =
      (Program.placed 0 front).filterMap (labelOfLine? before.length) ++
        (Program.placed front.flatten.length (chunk :: behind ++ [Program.endBytes])).filterMap
          (labelOfLine? before.length) := by
    rw [hasLines.lines_append, List.filterMap_append]
  have inside := le_size_of_mem_behind hasLines before.length
  have moved : ((Program.placed front.flatten.length
      (chunk :: behind ++ [Program.endBytes])).filterMap (labelOfLine? before.length)).map
        (fun label =>
          { label with
            address := movedAddress program.size label.address (-(chunk.length : Int)) }) =
      (Program.placed front.flatten.length (behind ++ [Program.endBytes])).filterMap
        (labelOfLine? before.length) := by
    rw [behindLine] at inside ⊢
    rw [List.map_map]
    refine (List.map_congr_left fun label member => ?_).trans (List.map_id _)
    have within := (inside _ (List.mem_map_of_mem member)).2
    rw [Function.comp_apply, movedAddress_sub within]
    rfl
  rw [labels_shiftLabels programs labels entries (lt_of_mem_front hasLines _)
      (fun label member => (inside label member).1), moved, labelsFrom_append, labelsFrom,
    Nat.zero_add, hasLines.lines_removeBytes, List.filterMap_append, List.append_assoc]

end

theorem set_eq_of_split {library : Library} {before after : List Program} {program : Program}
    (programs : library.programs = before ++ program :: after) (edited : Program) :
    (library.set before.length edited).programs = before ++ edited :: after := by
  simp [set, programs]

theorem comesFrom_of_split {programs before after : List Program} {program edited : Program}
    (split : programs = before ++ program :: after) (clean : edited.IsClean permitted) :
    ∀ other ∈ before ++ edited :: after, ComesFrom permitted programs other := by
  intro other member
  rw [List.mem_append, List.mem_cons] at member
  rcases member with isBefore | rfl | isAfter
  · exact .of_mem (by simp [split, isBefore])
  · exact .edited clean
  · exact .of_mem (by simp [split, isAfter])

/-- A program is put in the place of another one where the label table is already moved. -/
theorem follows_set_of_split {library moved : Library} {before after : List Program}
    {program edited : Program} (programs : library.programs = before ++ program :: after)
    (clean : edited.IsClean permitted)
    (table : moved.labels = labelsFrom 0 (before ++ edited :: after))
    (samePrograms : moved.programs = library.programs) :
    Follows permitted library (moved.set before.length edited) := by
  have inPlace := set_eq_of_split (samePrograms.trans programs) edited
  refine ⟨by rw [inPlace]; simp, ?_, ?_⟩
  · rw [inPlace]
    exact comesFrom_of_split programs clean
  · rw [inPlace]
    exact table

/-- Inserting an instruction at a line. -/
theorem follows_insert {library next : Library} {index address : Nat} {instruction : Instruction}
    (consistent : IsConsistent permitted library) (atLine : library.IsLineAddress index address)
    (plainEnd : instruction.isEnd → instruction.argument = .none)
    (keepsTo : (Edit.insert index address instruction).KeepsTo permitted)
    (inserted : library.insert index address instruction = .ok next) :
    Follows permitted library next := by
  obtain ⟨bytes, program, encoded, found, -, rfl⟩ := insert_eq_ok inserted
  obtain ⟨before, after, programs, rfl⟩ := exists_split_of_get? found
  have member : program ∈ library.programs := by simp [programs]
  obtain ⟨chunks, hasLines, empty⟩ := consistent.isSound program member
  obtain ⟨line, isLine, rfl⟩ := atLine program found
  obtain ⟨front, behind, rfl, atCut⟩ := hasLines.exists_cut isLine
  rw [atCut]
  by_cases isEnd : instruction.isEnd
  · rw [if_pos isEnd]
    obtain rfl : bytes = Program.endBytes := by
      obtain ⟨opcode, argument⟩ := instruction
      obtain rfl : opcode = .endOfProgram := by simpa [Instruction.isEnd] using isEnd
      obtain rfl : argument = .none := plainEnd isEnd
      exact (Except.ok.inj (Program.encode_end.symm.trans encoded)).symm
    obtain ⟨headClean, tailClean⟩ := Program.isClean_split hasLines empty false
    refine follows_ofPrograms (by simp) fun other member => ?_
    rw [List.mem_append, List.mem_cons, List.mem_cons] at member
    rcases member with isBefore | rfl | rfl | isAfter
    · exact .of_mem (List.mem_of_mem_take isBefore)
    · exact .edited headClean
    · exact .edited tailClean
    · exact .of_mem (List.mem_of_mem_drop isAfter)
  · obtain ⟨complete, nothing, stored⟩ := Codec.decode_of_encode encoded
    have isLine : Program.IsLine permitted bytes := by
      refine ⟨complete, ?_, keepsTo (by simpa using isEnd) bytes encoded⟩
      rw [stored]
      simpa [Instruction.isEnd] using isEnd
    have clean := Program.isClean_insertBytes hasLines empty isLine nothing
    rw [if_neg isEnd]
    by_cases isLabel : instruction.isGlobalLabel
    · rw [if_pos isLabel, rebuild, set_eq_of_split programs]
      exact follows_ofPrograms (by simp) (comesFrom_of_split programs clean)
    · rw [if_neg isLabel]
      have noLabel : (Codec.decode bytes 0).instruction.isGlobalLabel = false := by
        rw [stored, Codec.isGlobalLabel_storedArgument]
        simpa using isLabel
      have table := labels_insertBytes programs consistent.labels_eq hasLines isLine noLabel
      exact follows_set_of_split programs clean table rfl

/-! ## Deleting -/

theorem delete_eq_ok {library : Library} {index address : Nat} {result : Bool × Library}
    (deleted : library.delete index address = .ok result) :
    ∃ program decoded, library.get? index = some program ∧ program.decode address = decoded ∧
      (decoded.instruction.isEnd = true ∧ result = (false, library) ∨
        (decoded.instruction.isEnd = true ∧ program.isLocked = false ∧
          ∃ next, library.get? (index + 1) = some next ∧ next.isLocked = false ∧
            result = (true, library.join index program.emptyCaches next address)) ∨
        decoded.instruction.isEnd = false ∧ program.isLocked = false ∧ result = (true,
          if decoded.instruction.isGlobalLabel then
            (library.set index (program.emptyCaches.removeBytes address decoded.length)).rebuild
          else (library.shiftLabels index address (-(decoded.length : Int))).set index
            (program.emptyCaches.removeBytes address decoded.length))) := by
  unfold delete at deleted
  cases found : library.existing index with
  | error error => simp [found, bind, Except.bind] at deleted
  | ok program =>
      simp only [found, bind, Except.bind] at deleted
      split at deleted
      · cases deleted
      · cases isRead : program.read address with
        | error error => simp [isRead] at deleted
        | ok decoded =>
        simp only [isRead] at deleted
        refine ⟨program, decoded, existing_eq_ok.mp found, Program.decode_of_read isRead, ?_⟩
        split at deleted
        · next isEnd =>
            split at deleted
            · obtain rfl := Except.ok.inj deleted
              exact .inl ⟨isEnd, rfl⟩
            · next next isNext =>
                split at deleted
                · cases deleted
                · next unlocked =>
                    split at deleted
                    · cases deleted
                    · next nextUnlocked =>
                        obtain rfl := Except.ok.inj deleted
                        exact .inr (.inl ⟨isEnd, by simpa using unlocked, next, isNext,
                          by simpa using nextUnlocked, rfl⟩)
        · next noEnd =>
            split at deleted
            · cases deleted
            · next unlocked =>
                obtain rfl := Except.ok.inj deleted
                exact .inr (.inr ⟨by simpa using noEnd, by simpa using unlocked, rfl⟩)

/-- Deleting a line. -/
theorem follows_delete {library : Library} {index address : Nat} {result : Bool × Library}
    (consistent : IsConsistent permitted library) (atLine : library.IsLineAddress index address)
    (deleted : library.delete index address = .ok result) : Follows permitted library result.2 := by
  obtain ⟨program, decoded, found, read, cases⟩ := delete_eq_ok deleted
  obtain ⟨before, after, programs, rfl⟩ := exists_split_of_get? found
  have member : program ∈ library.programs := by simp [programs]
  obtain ⟨chunks, hasLines, empty⟩ := consistent.isSound program member
  obtain ⟨line, isLine, rfl⟩ := atLine program found
  obtain ⟨front, behind, rfl, atCut⟩ := hasLines.exists_cut isLine
  rw [atCut] at read cases
  rcases cases with ⟨-, same⟩ | ⟨isEnd, -, next, isNext, -, joined⟩ | ⟨noEnd, -, removed⟩
  · rw [same]
    exact consistent.follows_self
  · cases behind with
    | nil =>
        rw [List.append_nil] at hasLines
        obtain ⟨later, hasNext, -⟩ := consistent.isSound next (List.mem_of_getElem? isNext)
        rw [joined]
        refine follows_ofPrograms (by simp) fun other member => ?_
        rw [List.mem_append, List.mem_cons] at member
        rcases member with isBefore | rfl | isAfter
        · exact .of_mem (List.mem_of_mem_take isBefore)
        · exact .edited (Program.isClean_join hasLines hasNext)
        · exact .of_mem (List.mem_of_mem_drop isAfter)
    | cons chunk behind =>
        rw [← read, hasLines.decode_eq, Codec.Decoded.movedBy_instruction,
          (hasLines.isLine chunk (by simp)).noEnd] at isEnd
        cases isEnd
  · cases behind with
    | nil =>
        rw [List.append_nil] at hasLines
        rw [← read, hasLines.decode_end] at noEnd
        cases noEnd
    | cons chunk behind =>
        have isLine := hasLines.isLine chunk (by simp)
        have clean := Program.isClean_removeBytes hasLines empty
        rw [← read, hasLines.decode_eq, Codec.Decoded.movedBy_instruction,
          Codec.Decoded.movedBy_length, isLine.complete.decode_length] at removed
        rw [removed]
        by_cases isLabel : (Codec.decode chunk 0).instruction.isGlobalLabel
        · rw [if_pos isLabel, rebuild, set_eq_of_split programs]
          exact follows_ofPrograms (by simp) (comesFrom_of_split programs clean)
        · rw [if_neg isLabel]
          have table :=
            labels_removeBytes programs consistent.labels_eq hasLines (by simpa using isLabel)
          exact follows_set_of_split programs clean table rfl

/-! ## Whole programs -/

/-- Removing a whole program. -/
theorem follows_clear {library next : Library} {index : Nat}
    (cleared : library.clear index = .ok next) : Follows permitted library next := by
  have rest : ∀ program ∈ library.programs.eraseIdx index,
      ComesFrom permitted library.programs program :=
    fun program member => .of_mem (List.mem_of_mem_eraseIdx member)
  unfold clear at cleared
  cases found : library.existing index with
  | error error => simp [found, bind, Except.bind] at cleared
  | ok program =>
      simp only [found, bind, Except.bind] at cleared
      split at cleared
      · cases cleared
      · split at cleared
        · obtain rfl := Except.ok.inj cleared
          refine follows_ofPrograms (by simp) fun other member => ?_
          rcases List.mem_append.mp member with isRest | isNew
          · exact rest other isRest
          · rw [List.mem_singleton.mp isNew]
            exact .edited Program.isClean_empty
        · next notEmpty =>
            obtain rfl := Except.ok.inj cleared
            refine follows_ofPrograms (fun empty => notEmpty ?_) rest
            rw [empty]
            rfl

/-- Opening a new program puts an end in front of the last one, or does nothing. -/
theorem follows_openNew {library : Library} {result : Nat × Library}
    (consistent : IsConsistent permitted library) (opened : library.openNew = .ok result) :
    Follows permitted library result.2 := by
  unfold openNew at opened
  cases found : library.existing (library.count - 1) with
  | error error => simp [found, bind, Except.bind] at opened
  | ok last =>
      simp only [found, bind, Except.bind] at opened
      split at opened
      · obtain rfl := Except.ok.inj opened
        exact consistent.follows_self
      · cases inserted : library.insert (library.count - 1) last.endAddress
            (.plain .endOfProgram) with
        | error error => simp [inserted] at opened
        | ok extended =>
            simp only [inserted] at opened
            obtain rfl := Except.ok.inj opened
            refine follows_insert consistent (fun program isLast => ?_) (fun _ => rfl)
              (fun noEnd => Bool.noConfusion noEnd) inserted
            have isProgram := existing_eq_ok.mp found
            obtain rfl : last = program := Option.some.inj (isProgram.symm.trans isLast)
            obtain ⟨chunks, hasLines, -⟩ := consistent.isSound last (List.mem_of_getElem? isLast)
            exact hasLines.exists_end

/-! ## Programs that keep their lines -/

/-- A program is replaced by one with the same lines. -/
theorem follows_of_sameLines {library : Library} (consistent : IsConsistent permitted library)
    {index : Nat}
    {program edited : Program} (found : library.get? index = some program)
    (comesFrom : ComesFrom permitted library.programs edited)
    (sameLines : edited.lines = program.lines) :
    Follows permitted library (library.set index edited) := by
  obtain ⟨before, after, programs, rfl⟩ := exists_split_of_get? found
  have inPlace := set_eq_of_split programs edited
  refine ⟨by rw [inPlace]; simp, ?_, ?_⟩
  · rw [inPlace]
    intro other member
    rw [List.mem_append, List.mem_cons] at member
    rcases member with isBefore | rfl | isAfter
    · exact .of_mem (by simp [programs, isBefore])
    · exact comesFrom
    · exact .of_mem (by simp [programs, isAfter])
  · have same : library.labels = labelsFrom 0 (before ++ edited :: after) := by
      rw [consistent.labels_eq, programs]
      exact labelsFrom_congr (by simp [sameLines]) 0
    rw [inPlace]
    exact same

theorem follows_setLocked {library : Library} (consistent : IsConsistent permitted library)
    (index : Nat)
    (isLocked : Bool) : Follows permitted library (library.setLocked index isLocked) := by
  cases found : library.get? index with
  | none =>
      have same : library.setLocked index isLocked = library := by
        have outside := List.getElem?_eq_none_iff.mp found
        rw [setLocked, List.modify_eq_self outside]
      rw [same]
      exact consistent.follows_self
  | some program =>
      have same : library.setLocked index isLocked =
          library.set index { program with isLocked } := by
        have entry : library.programs[index]? = some program := found
        rw [setLocked, set, List.modify_eq_set, entry, Option.getD_some]
      rw [same]
      exact follows_of_sameLines consistent found (.kept (List.mem_of_getElem? found) isLocked) rfl

/-- An instruction is fetched from a program, which may remember a target then. -/
theorem fetch_eq_ok {library : Library} {index address : Nat} {wantTarget : Bool}
    {result : Program.Fetched × Library}
    (fetched : library.fetch index address wantTarget = .ok result) :
    ∃ program found, library.get? index = some program ∧
      program.fetch address wantTarget = .ok found ∧ result = (found.1, library.set index found.2) := by
  rw [fetch] at fetched
  cases isProgram : library.get? index with
  | none =>
      rw [isProgram] at fetched
      cases fetched
  | some program =>
      rw [isProgram] at fetched
      cases isFetched : program.fetch address wantTarget with
      | error error => simp [isFetched, bind, Except.bind] at fetched
      | ok found =>
          simp only [isFetched, bind, Except.bind] at fetched
          exact ⟨program, found, rfl, isFetched, (Except.ok.inj fetched).symm⟩

/-- Reading a line for execution. -/
theorem follows_fetch {library : Library} {index address : Nat} {wantTarget : Bool}
    {result : Program.Fetched × Library} (consistent : IsConsistent permitted library)
    (atLine : library.IsLineAddress index address)
    (fetched : library.fetch index address wantTarget = .ok result) :
    Follows permitted library result.2 := by
  obtain ⟨program, ⟨instruction, left⟩, found, isFetched, rfl⟩ := fetch_eq_ok fetched
  have member := List.mem_of_getElem? found
  obtain ⟨chunks, hasLines, -⟩ := consistent.isSound program member
  obtain ⟨line, isLine, rfl⟩ := atLine program found
  exact follows_of_sameLines consistent found (.fetched member isLine isFetched)
    (Program.lines_fetch hasLines isLine isFetched)

/-! ## Any edits -/

theorem isConsistent_initial : IsConsistent permitted initial where
  nonempty := by simp [initial, ofPrograms]
  isSound := by
    intro program member
    rw [List.mem_singleton.mp member]
    exact Program.isClean_empty.isSound
  labels_eq := rfl

/-- An edit at a line leaves a library that follows the one before. -/
theorem follows_apply {library : Library} (consistent : IsConsistent permitted library)
    {edit : Edit}
    (admitted : library.Admits edit) (keepsTo : edit.KeepsTo permitted) :
    Follows permitted library (library.apply edit) := by
  cases edit with
  | insert index address instruction =>
      rw [apply]
      cases inserted : library.insert index address instruction with
      | error error => exact consistent.follows_self
      | ok next => exact follows_insert consistent admitted.1 admitted.2 keepsTo inserted
  | delete index address =>
      rw [apply]
      cases deleted : library.delete index address with
      | error error => exact consistent.follows_self
      | ok result => exact follows_delete consistent admitted deleted
  | clear index =>
      rw [apply]
      cases cleared : library.clear index with
      | error error => exact consistent.follows_self
      | ok next => exact follows_clear cleared
  | openNew =>
      rw [apply]
      cases opened : library.openNew with
      | error error => exact consistent.follows_self
      | ok result => exact follows_openNew consistent opened
  | setLocked index isLocked => exact follows_setLocked consistent index isLocked
  | rebuild => exact follows_ofPrograms consistent.nonempty fun _ member => .of_mem member
  | fetch index address wantTarget =>
      rw [apply]
      cases fetched : library.fetch index address wantTarget with
      | error error => exact consistent.follows_self
      | ok result => exact follows_fetch consistent admitted fetched

/-- Whatever edits lead to a library, it is consistent. -/
theorem Reachable.isConsistent {allowed : Library → Edit → Prop}
    (admits : ∀ library edit, allowed library edit → library.Admits edit ∧ edit.KeepsTo permitted)
    {library : Library} (reachable : Reachable allowed library) :
    IsConsistent permitted library := by
  induction reachable with
  | initial => exact isConsistent_initial
  | edited reachable isAllowed ih =>
      obtain ⟨admitted, keepsTo⟩ := admits _ _ isAllowed
      exact (follows_apply ih admitted keepsTo).isConsistent ih

theorem Reachable.isConsistent_of_admits {library : Library}
    (reachable : Reachable Admits library) : IsConsistent (fun _ => True) library := by
  refine reachable.isConsistent fun _ edit admitted => ⟨admitted, ?_⟩
  cases edit <;> simp [Edit.KeepsTo]

/-- Whatever edits at lines lead to a library, it has a program, each of its programs is complete
instructions of which the last two bytes are the only end, and its label table is the one that would be
built anew. So a name is found where its last label is, by program and address. -/
theorem programs_and_labels_of_edits {library : Library} (reachable : Reachable Admits library) :
    library.programs ≠ [] ∧
      (∀ program ∈ library.programs,
        (∃ chunks : List (List UInt8), program.text = chunks.flatten ++ Program.endBytes ∧
          ∀ chunk ∈ chunks, Codec.IsComplete chunk ∧ (Codec.decode chunk 0).instruction.isEnd =
            false) ∧
        program.lines.filter (fun line => line.2.instruction.isEnd) =
          [(program.endAddress, ⟨.plain .endOfProgram, 2, none⟩)]) ∧
      library.labels = library.rebuild.labels ∧
      ∀ name,
        (∀ place, library.findGlobal? name = some place ↔ library.HasGlobalLabel name place ∧
          ∀ other, library.HasGlobalLabel name other → toLex other ≤ toLex place) ∧
        (library.findGlobal? name = none ↔ ∀ place, ¬library.HasGlobalLabel name place) := by
  have keepsToAny : ∀ edit : Edit, edit.KeepsTo fun _ => True := by
    intro edit
    cases edit <;> simp [Edit.KeepsTo]
  have consistent := reachable.isConsistent fun _ edit admitted => ⟨admitted, keepsToAny edit⟩
  refine ⟨consistent.nonempty, fun program member => ?_, consistent.labels_eq, fun name => ?_⟩
  · obtain ⟨chunks, hasLines, -⟩ := consistent.isSound program member
    refine ⟨⟨chunks, hasLines.text_eq, fun chunk isChunk => ?_⟩, hasLines.filter_isEnd⟩
    have isLine := hasLines.isLine chunk isChunk
    exact ⟨isLine.complete, isLine.noEnd⟩
  · exact ⟨findGlobal?_eq_some_iff consistent.labels_eq name,
      findGlobal?_eq_none_iff consistent.labels_eq name⟩

/-- A label in a first program, a new program, and the same label there. -/
theorem findGlobal?_after_edits :
    let label : Instruction := ⟨.label, .direct (.text [65])⟩
    let library := ((initial.apply (.insert 0 0 label)).apply .openNew).apply (.insert 1 0 label)
    Reachable Admits library ∧ library.labels = library.rebuild.labels ∧
      library.HasGlobalLabel [65] (1, 0) ∧
      ∀ other, library.HasGlobalLabel [65] other → toLex other ≤ toLex (1, 0) := by
  intro label library
  have first : Reachable Admits (initial.apply (.insert 0 0 label)) :=
    .edited .initial (show initial.Admits (.insert 0 0 label) by decide +kernel)
  have second : Reachable Admits ((initial.apply (.insert 0 0 label)).apply .openNew) :=
    .edited first trivial
  have reachable : Reachable Admits library :=
    .edited second
      (show ((initial.apply (.insert 0 0 label)).apply .openNew).Admits (.insert 1 0 label) by
        decide +kernel)
  obtain ⟨-, -, labels, found⟩ := programs_and_labels_of_edits reachable
  exact ⟨reachable, labels, ((found [65]).1 (1, 0)).mp (by decide +kernel)⟩

end Library

end Keystroke
