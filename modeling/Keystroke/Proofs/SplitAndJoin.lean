import Keystroke.Proofs.CacheBytes

/-!
# Splitting and joining programs

A program that is cut in two by an end and joined again comes back, and so do two programs that are joined
and cut apart again. Only what their jumps remembered is forgotten; all other programs and the label table
are the same.
-/

namespace Keystroke

namespace Codec

/-- Emptying a cache that remembers nothing changes nothing. -/
theorem emptied_eq_self {chunk : List UInt8} (nothing : RemembersNothing chunk) :
    emptied chunk = chunk := by
  rw [emptied]
  cases cache : (decode chunk 0).cache with
  | none => rfl
  | some place =>
      have empty := nothing place cache
      rw [readCache] at empty
      split at empty
      · next field => exact overwrite_eq_self field
      · cases empty

end Codec

namespace Program

variable {permitted : Codec.Decoded → Prop}

/-! ## Programs whose caches are empty -/

theorem HasLines.withoutCaches_eq {text : List UInt8} {chunks : List (List UInt8)}
    (hasLines : HasLines permitted text chunks) :
    withoutCaches text = (chunks.map Codec.emptied).flatten ++ endBytes := by
  have filled : HasLines permitted (⟨text, false, false⟩ : Program).text chunks := hasLines
  exact filled.emptyCaches.text_eq

theorem map_emptied_eq_self {chunks : List (List UInt8)}
    (nothing : ∀ chunk ∈ chunks, Codec.RemembersNothing chunk) :
    chunks.map Codec.emptied = chunks :=
  (List.map_congr_left fun chunk member => Codec.emptied_eq_self (nothing chunk member)).trans
    (List.map_id chunks)

theorem withoutCaches_eq_self {text : List UInt8} {chunks : List (List UInt8)}
    (hasLines : HasLines permitted text chunks)
    (nothing : ∀ chunk ∈ chunks, Codec.RemembersNothing chunk) : withoutCaches text = text := by
  rw [hasLines.withoutCaches_eq, map_emptied_eq_self nothing, ← hasLines.text_eq]

theorem IsClean.emptyCaches_eq {program : Program} (clean : IsClean permitted program) :
    program.emptyCaches = { program with cachesEmpty := true } := by
  obtain ⟨chunks, hasLines, nothing⟩ := clean
  unfold emptyCaches
  split
  · next flag => rw [← flag]
  · rw [withoutCaches_eq_self hasLines nothing]

theorem forgetful_eq (program : Program) :
    program.forgetful = ⟨withoutCaches program.text, true, program.isLocked⟩ :=
  rfl

/-- A program that says that its caches are empty has nothing to forget. -/
theorem IsSound.emptyCaches_eq_forgetful {program : Program} (sound : IsSound permitted program) :
    program.emptyCaches = program.forgetful := by
  cases flag : program.cachesEmpty with
  | false =>
      rw [forgetful, ← flag]
  | true =>
      obtain ⟨chunks, hasLines, nothing⟩ := sound.isClean flag
      have clean : IsClean permitted { program with cachesEmpty := false } :=
        ⟨chunks, hasLines, nothing⟩
      rw [forgetful, clean.emptyCaches_eq, emptyCaches, if_pos flag, ← flag]

/-! ## The parts of a program -/

section

variable {program next : Program} {front behind later : List (List UInt8)}

/-- What stands behind a cut of a clean program is clean. -/
theorem isClean_drop (hasLines : HasLines permitted program.text (front ++ behind))
    (nothing : ∀ chunk ∈ front ++ behind, Codec.RemembersNothing chunk) (isLocked : Bool) :
    IsClean permitted ⟨program.text.drop front.flatten.length, false, isLocked⟩ :=
  ⟨behind, hasLines.drop, fun chunk member => nothing chunk (List.mem_append_right front member)⟩

/-- When a clean program whose end is cut off goes on with another one, only that one forgets something. -/
theorem withoutCaches_take_append (hasLines : HasLines permitted program.text front)
    (nothing : ∀ chunk ∈ front, Codec.RemembersNothing chunk)
    (hasNext : HasLines permitted next.text later) :
    withoutCaches (program.text.take front.flatten.length ++ next.text) =
      program.text.take front.flatten.length ++ withoutCaches next.text := by
  rw [(hasLines.take_append hasNext).withoutCaches_eq, hasNext.withoutCaches_eq, List.map_append,
    List.flatten_append, map_emptied_eq_self nothing, hasLines.text_eq, List.take_left,
    List.append_assoc]

end

/-- The caches of a program of lines are inside of it. -/
theorem HasLines.sameButCaches_forgetful {program : Program} {chunks : List (List UInt8)}
    (hasLines : HasLines permitted program.text chunks) :
    SameButCaches program program.forgetful :=
  Program.sameButCaches_forgetful fun _ isLine _ cache => (hasLines.cache_at_end isLine cache).2.2

end Program

namespace Library

variable {permitted : Codec.Decoded → Prop} {library : Library} {index address : Nat}
  {program next : Program}

/-! ## Edits that succeed -/

theorem insert_end_eq (found : library.get? index = some program)
    (unlocked : program.isLocked = false) (within : address ≤ program.endAddress) :
    library.insert index address (.plain .endOfProgram) =
      .ok (library.split index program.emptyCaches address Program.endBytes) := by
  rw [insert, Program.encode_end, existing_eq_ok.mpr found]
  simp only [bind, Except.bind, unlocked, Bool.false_eq_true, if_false, Nat.not_lt.mpr within]
  rfl

theorem delete_end_eq (found : library.get? index = some program)
    (isNext : library.get? (index + 1) = some next) (unlocked : program.isLocked = false)
    (nextUnlocked : next.isLocked = false) (within : address < program.size) {decoded : Codec.Decoded}
    (isRead : program.read address = .ok decoded) (isEnd : decoded.instruction.isEnd = true) :
    library.delete index address =
      .ok (true, library.join index program.emptyCaches next address) := by
  rw [delete, existing_eq_ok.mpr found]
  simp only [bind, Except.bind, Nat.not_le.mpr within, isRead, isEnd, isNext, unlocked, nextUnlocked,
    Bool.false_eq_true, if_false, if_true]
  rfl

/-- A library whose programs have other caches has the same label table. -/
theorem ofPrograms_eq {programs : List Program}
    (labels : library.labels = labelsFrom 0 library.programs)
    (lines : programs.map Program.lines = library.programs.map Program.lines) :
    ofPrograms programs = { library with programs } := by
  rw [ofPrograms, labelsFrom_congr lines, labels]

section

variable {before after : List Program}

theorem get?_middle (before after : List Program) (program : Program) :
    (ofPrograms (before ++ program :: after)).get? before.length = some program := by
  simp [get?, ofPrograms]

theorem get?_behind (before after : List Program) (program next : Program) :
    (ofPrograms (before ++ program :: next :: after)).get? (before.length + 1) = some next := by
  simp [get?, ofPrograms]

theorem split_eq (programs : library.programs = before ++ program :: after) (edited : Program)
    (address : Nat) (ending : List UInt8) :
    library.split before.length edited address ending =
      ofPrograms (before ++ { edited with text := edited.text.take address ++ ending } ::
        (⟨edited.text.drop address, false, false⟩ : Program).emptyCaches :: after) := by
  simp [split, programs]

theorem join_eq (programs : library.programs = before ++ program :: next :: after)
    (edited following : Program) (address : Nat) :
    library.join before.length edited following address =
      ofPrograms (before ++ ({ edited with
        text := edited.text.take address ++ following.text
        cachesEmpty := false } : Program).emptyCaches :: after) := by
  simp [join, programs]

end

/-- The next program stands in front of those behind a program. -/
theorem exists_next {before rest : List Program}
    (programs : library.programs = before ++ program :: rest)
    (isNext : library.get? (before.length + 1) = some next) : ∃ after, rest = next :: after := by
  cases rest with
  | nil => simp [get?, programs] at isNext
  | cons other after =>
      have isOther : some other = some next := by simpa [get?, programs] using isNext
      exact ⟨after, by rw [Option.some.inj isOther]⟩

/-! ## There and back -/

section

variable {before after : List Program} {edited : Program} {front behind later : List (List UInt8)}

/-- The parts of a program whose caches are empty are joined to the same program. -/
theorem delete_split (programs : library.programs = before ++ program :: after)
    (flag : edited.cachesEmpty = true) (unlocked : edited.isLocked = false)
    (hasLines : Program.HasLines permitted edited.text (front ++ behind))
    (nothing : ∀ chunk ∈ front ++ behind, Codec.RemembersNothing chunk) :
    (library.split before.length edited front.flatten.length Program.endBytes).delete before.length
      front.flatten.length = .ok (true, ofPrograms (before ++ edited :: after)) := by
  have tailClean := Program.isClean_drop hasLines nothing false
  have headLines : Program.HasLines permitted ({ edited with
      text := edited.text.take front.flatten.length ++ Program.endBytes } : Program).text front :=
    hasLines.take_append_end
  rw [split_eq programs, tailClean.emptyCaches_eq]
  have headUnlocked : ({ edited with
      text := edited.text.take front.flatten.length ++ Program.endBytes } : Program).isLocked =
        false := unlocked
  have inside := headLines.size_eq
  have isRead : ({ edited with
      text := edited.text.take front.flatten.length ++ Program.endBytes } : Program).read
        front.flatten.length = .ok ⟨.plain .endOfProgram, 2, none⟩ := by
    rw [headLines.hasEnd.read_end, headLines.decode_end]
  -- the head kept the flag of the whole, so the deletion does not empty its caches once more
  rw [delete_end_eq (get?_middle _ _ _) (get?_behind _ _ _ _) headUnlocked rfl (by omega)
    isRead rfl, Program.emptyCaches, if_pos flag, join_eq rfl]
  have joined : (edited.text.take front.flatten.length ++ Program.endBytes).take
      front.flatten.length ++ edited.text.drop front.flatten.length = edited.text := by
    have inFront : front.flatten.length ≤ edited.text.length := by
      rw [hasLines.text_eq_flatten, List.flatten_append, List.flatten_append, List.length_append,
        List.length_append]
      omega
    rw [List.take_append_of_le_length (by rw [List.length_take_of_le inFront]), List.take_take,
      Nat.min_self, List.take_append_drop]
  have clean : Program.IsClean permitted { edited with cachesEmpty := false } :=
    ⟨_, hasLines, nothing⟩
  simp only [joined, clean.emptyCaches_eq, ← flag]

/-- Where two programs were joined they are cut apart again, and the caches of the second are empty too. -/
theorem insert_join (programs : library.programs = before ++ program :: next :: after)
    (unlocked : edited.isLocked = false) (nextUnlocked : next.isLocked = false)
    (flag : edited.cachesEmpty = true)
    (hasLines : Program.HasLines permitted edited.text front)
    (nothing : ∀ chunk ∈ front, Codec.RemembersNothing chunk)
    (hasNext : Program.HasLines permitted next.text later) :
    (library.join before.length edited next front.flatten.length).insert before.length
      front.flatten.length (.plain .endOfProgram) =
        .ok (ofPrograms (before ++ edited :: next.forgetful :: after)) := by
  obtain ⟨others, hasOthers, nothingLater⟩ := Program.isClean_forgetful hasNext
  have cutAt : edited.text.take front.flatten.length = front.flatten := by
    rw [hasLines.text_eq, List.take_left]
  have joined : ({ edited with
      text := edited.text.take front.flatten.length ++ next.text
      cachesEmpty := false } : Program).emptyCaches =
      ⟨front.flatten ++ next.forgetful.text, true, false⟩ := by
    rw [Program.emptyCaches, if_neg Bool.false_ne_true,
      Program.withoutCaches_take_append hasLines nothing hasNext, cutAt, unlocked]
    rfl
  have joinedLines : Program.HasLines permitted
      (⟨front.flatten ++ next.forgetful.text, true, false⟩ : Program).text (front ++ others) := by
    have lines := hasLines.take_append hasOthers
    rwa [cutAt] at lines
  have within : front.flatten.length ≤
      (⟨front.flatten ++ next.forgetful.text, true, false⟩ : Program).endAddress := by
    rw [joinedLines.endAddress_eq, List.flatten_append, List.length_append]
    exact Nat.le_add_right _ _
  have head : (⟨front.flatten ++ Program.endBytes, true, false⟩ : Program) = edited := by
    rw [← hasLines.text_eq, ← flag, ← unlocked]
  have tail : (⟨next.forgetful.text, false, false⟩ : Program).emptyCaches = next.forgetful := by
    have clean : Program.IsClean permitted ⟨next.forgetful.text, false, false⟩ :=
      ⟨others, hasOthers, nothingLater⟩
    rw [clean.emptyCaches_eq, Program.forgetful_eq, nextUnlocked]
  rw [join_eq programs, joined, insert_end_eq (get?_middle _ _ _) rfl within,
    Program.emptyCaches, if_pos rfl, split_eq rfl]
  simp only [List.take_left, List.drop_left, head, tail]

end

/-- Cutting a program in two and joining the parts forgets what its jumps remember, and nothing else. -/
theorem delete_insert_end (consistent : IsConsistent permitted library)
    (found : library.get? index = some program) (unlocked : program.isLocked = false)
    {line : Nat × Codec.Decoded} (isLine : line ∈ program.lines) :
    ∃ middle, library.insert index line.1 (.plain .endOfProgram) = .ok middle ∧
      middle.delete index line.1 = .ok (true, library.set index program.forgetful) := by
  obtain ⟨before, after, programs, rfl⟩ := exists_split_of_get? found
  have sound := consistent.isSound program (by simp [programs])
  obtain ⟨chunks, hasLines, -⟩ := id sound
  have same := hasLines.sameButCaches_forgetful
  obtain ⟨others, hasOthers, nothing⟩ := Program.isClean_forgetful hasLines
  rw [← same.lines_eq] at isLine
  obtain ⟨front, behind, rfl, atCut⟩ := hasOthers.exists_cut isLine
  have within : line.1 ≤ program.endAddress := by
    rw [Program.endAddress, ← same.size_eq, ← Program.endAddress, hasOthers.endAddress_eq, atCut,
      List.flatten_append, List.length_append]
    exact Nat.le_add_right _ _
  refine ⟨_, insert_end_eq found unlocked within, ?_⟩
  rw [sound.emptyCaches_eq_forgetful, atCut, delete_split programs rfl
    (same.isLocked_eq.trans unlocked) hasOthers nothing,
    ofPrograms_eq consistent.labels_eq (by simp [programs, same.lines_eq]), set]
  simp [programs]

/-- Joining two programs and cutting them apart forgets what their jumps remember, and nothing else. -/
theorem insert_end_delete (consistent : IsConsistent permitted library)
    (found : library.get? index = some program) (isNext : library.get? (index + 1) = some next)
    (unlocked : program.isLocked = false) (nextUnlocked : next.isLocked = false)
    {line : Nat × Codec.Decoded} (isLine : line ∈ program.lines)
    (isEnd : line.2.instruction.isEnd = true) :
    ∃ joined, library.delete index line.1 = .ok (true, joined) ∧
      joined.insert index line.1 (.plain .endOfProgram) =
        .ok ((library.set index program.forgetful).set (index + 1) next.forgetful) := by
  obtain ⟨before, rest, programs, rfl⟩ := exists_split_of_get? found
  obtain ⟨after, rfl⟩ := exists_next programs isNext
  have sound := consistent.isSound program (by simp [programs])
  obtain ⟨chunks, hasLines, -⟩ := id sound
  obtain ⟨later, hasNext, -⟩ := consistent.isSound next (by simp [programs])
  have same := hasLines.sameButCaches_forgetful
  obtain ⟨others, hasOthers, nothing⟩ := Program.isClean_forgetful hasLines
  have atEnd : line.1 = others.flatten.length := by
    have closing : line ∈ program.lines.filter fun line => line.2.instruction.isEnd :=
      List.mem_filter.mpr ⟨isLine, isEnd⟩
    rw [hasLines.filter_isEnd, List.mem_singleton] at closing
    rw [closing, ← hasOthers.endAddress_eq, Program.endAddress, Program.endAddress, same.size_eq]
  have isRead := hasLines.hasEnd.read_line isLine
  have within : line.1 < program.size := by
    rw [← same.size_eq, hasOthers.size_eq, atEnd]
    omega
  refine ⟨_, delete_end_eq found isNext unlocked nextUnlocked within isRead isEnd, ?_⟩
  rw [sound.emptyCaches_eq_forgetful, atEnd, insert_join programs
    (same.isLocked_eq.trans unlocked) nextUnlocked rfl hasOthers nothing hasNext,
    ofPrograms_eq consistent.labels_eq
      (by simp [programs, same.lines_eq, hasNext.sameButCaches_forgetful.lines_eq]), set, set]
  simp [programs]

/-- In every library that edits at lines lead to, an end that is put at a line of a program and deleted
again leaves the programs, their locks and the label table as they were, and so does an end between two
programs that is deleted and put back. Only the jump caches of the programs that were cut or joined are
empty afterwards. -/
theorem split_and_join_of_edits (reachable : Reachable Admits library) :
    (∀ index program, library.get? index = some program → program.isLocked = false →
      ∀ line ∈ program.lines,
        ∃ middle, library.insert index line.1 (.plain .endOfProgram) = .ok middle ∧
          middle.delete index line.1 = .ok (true, library.set index program.forgetful)) ∧
    (∀ index program next, library.get? index = some program →
      library.get? (index + 1) = some next → program.isLocked = false → next.isLocked = false →
      ∀ line ∈ program.lines, line.2.instruction.isEnd = true →
        ∃ joined, library.delete index line.1 = .ok (true, joined) ∧
          joined.insert index line.1 (.plain .endOfProgram) =
            .ok ((library.set index program.forgetful).set (index + 1) next.forgetful)) ∧
    ∀ program ∈ library.programs, program.SameButCaches program.forgetful ∧
      ∀ line ∈ program.lines, ∀ place, line.2.cache = some place →
        Codec.readCache program.forgetful.text place = none := by
  have consistent := reachable.isConsistent_of_admits
  refine ⟨fun index program found unlocked line isLine => ?_,
    fun index program next found isNext unlocked nextUnlocked line isLine isEnd => ?_,
    fun program member => ?_⟩
  · exact delete_insert_end consistent found unlocked isLine
  · exact insert_end_delete consistent found isNext unlocked nextUnlocked isLine isEnd
  · obtain ⟨chunks, hasLines, -⟩ := consistent.isSound program member
    have same := hasLines.sameButCaches_forgetful
    refine ⟨same, fun line isLine place cache => ?_⟩
    rw [← same.lines_eq] at isLine
    exact (Program.isClean_forgetful hasLines).readCache_eq_none isLine cache

/-- A jump in front of the label that it means, and a new program. -/
def jumpAndLabel : Library :=
  ((initial.apply (.insert 0 0 ⟨.label, .direct (.number 1)⟩)).apply
    (.insert 0 0 ⟨.goto, .direct (.number 1)⟩)).apply .openNew

theorem reachable_jumpAndLabel : Reachable Admits jumpAndLabel := by
  have label : Reachable Admits (initial.apply (.insert 0 0 ⟨.label, .direct (.number 1)⟩)) :=
    .edited .initial (show initial.Admits (.insert 0 0 ⟨.label, .direct (.number 1)⟩) by
      decide +kernel)
  have jump : Reachable Admits ((initial.apply (.insert 0 0 ⟨.label, .direct (.number 1)⟩)).apply
      (.insert 0 0 ⟨.goto, .direct (.number 1)⟩)) :=
    .edited label (show (initial.apply (.insert 0 0 ⟨.label, .direct (.number 1)⟩)).Admits
      (.insert 0 0 ⟨.goto, .direct (.number 1)⟩) by decide +kernel)
  exact .edited jump trivial

/-- A program whose jump remembers its target, cut and joined, and joined with the next and cut. -/
theorem split_and_join_after_jump :
    let library := jumpAndLabel.apply (.fetch 0 0 true)
    Reachable Admits library ∧ ∃ program ∈ library.get? 0, program.cachesEmpty = false ∧
      (∃ middle, library.insert 0 7 (.plain .endOfProgram) = .ok middle ∧
        middle.delete 0 7 = .ok (true, library.set 0 program.forgetful)) ∧
      ∃ joined, library.delete 0 10 = .ok (true, joined) ∧
        joined.insert 0 10 (.plain .endOfProgram) =
          .ok ((library.set 0 program.forgetful).set 1 Program.empty.forgetful) := by
  intro library
  have reachable : Reachable Admits library :=
    .edited reachable_jumpAndLabel (show jumpAndLabel.Admits (.fetch 0 0 true) by decide +kernel)
  obtain ⟨program, found, filled, unlocked, line, isLine, atCut, closing, isClosing, atEnd, isEnd⟩ :
      ∃ program ∈ library.get? 0, program.cachesEmpty = false ∧ program.isLocked = false ∧
        ∃ line ∈ program.lines, line.1 = 7 ∧ ∃ closing ∈ program.lines, closing.1 = 10 ∧
          closing.2.instruction.isEnd = true := by
    decide +kernel
  have isNext : library.get? 1 = some .empty := by decide +kernel
  obtain ⟨cut, joined, -⟩ := split_and_join_of_edits reachable
  have inTwo := cut 0 program found unlocked line isLine
  have asOne := joined 0 program .empty found isNext unlocked rfl closing isClosing isEnd
  rw [atCut] at inTwo
  rw [atEnd] at asOne
  exact ⟨reachable, program, found, filled, inTwo, asOne⟩

end Library

end Keystroke
