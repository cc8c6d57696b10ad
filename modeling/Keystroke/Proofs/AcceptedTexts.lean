import Mathlib
import Keystroke.Proofs.LibraryEdits

/-!
# Programs of unknown origin

The check of bytes of unknown origin accepts lines with one end behind them, whatever argument the end
has. The address that counts as the end's leaves room for two bytes, which is all of an end without an
argument only. Edits at the addresses of lines do not depend on it, and the check accepts what they leave.
-/

namespace Keystroke

namespace Program

/-- The bytes of the program pass the check. -/
def IsAccepted (program : Program) : Prop := check program.text 0 false = .ok ()

instance (program : Program) : Decidable program.IsAccepted :=
  inferInstanceAs (Decidable (_ = _))

/-- Lines and a closing end of any form. -/
abbrev IsClosed (text : List UInt8) (chunks : List (List UInt8)) (closing : List UInt8) : Prop :=
  HasEnd (fun _ => True) text chunks closing

theorem isAccepted_iff {program : Program} :
    program.IsAccepted ↔ ∃ chunks closing, IsClosed program.text chunks closing := by
  rw [IsAccepted, check_eq_ok_iff]
  constructor
  · rintro ⟨chunks, closing, text, isLine, complete, isEnd⟩
    exact ⟨chunks, closing, isLine, complete, isEnd, text⟩
  · rintro ⟨chunks, closing, isLine, complete, isEnd, text⟩
    exact ⟨chunks, closing, text, isLine, complete, isEnd⟩

theorem HasEnd.isAccepted {program : Program} {chunks : List (List UInt8)} {closing : List UInt8}
    (closed : IsClosed program.text chunks closing) : program.IsAccepted :=
  isAccepted_iff.mpr ⟨chunks, closing, closed⟩

theorem IsAccepted.emptyCaches {program : Program} (accepted : program.IsAccepted) :
    program.emptyCaches.IsAccepted := by
  obtain ⟨chunks, closing, closed⟩ := isAccepted_iff.mp accepted
  exact closed.emptyCaches.isAccepted

section

variable {program : Program} {chunks front behind : List (List UInt8)} {chunk closing : List UInt8}

/-- A line that is inserted in front of the end stands between the other lines and the end. -/
theorem HasEnd.lines_insert_at_end (closed : IsClosed program.text chunks closing)
    (isLine : IsLine (fun _ => True) chunk) :
    (program.emptyCaches.insertBytes chunks.flatten.length chunk).lines =
      placed 0 chunks ++
        [(chunks.flatten.length, (Codec.decode chunk 0).movedBy chunks.flatten.length),
          (chunks.flatten.length + chunk.length,
            (Codec.decode closing 0).movedBy (chunks.flatten.length + chunk.length))] := by
  have inFront := fun line member => (closed.isLine line member).complete
  rw [← List.append_nil chunks] at closed
  have inserted := closed.insertBytes_emptyCaches isLine
  have nothing : program.clearedLines [] = [] := ite_self []
  rw [inserted.lines_eq_append_end, placed_append, placed_clearedLines program inFront, nothing,
    (program.sameButCache_clearedEnd closed.complete).decode_eq, List.append_assoc,
    List.flatten_append, List.length_append, program.length_flatten_clearedLines inFront]
  simp [placed]

/-- Two bytes are counted for the end, which are all of it if it has no argument. -/
theorem HasEnd.endAddress_eq_iff (closed : IsClosed program.text chunks closing) :
    program.endAddress = chunks.flatten.length ↔ closing.length = 2 := by
  obtain ⟨first, second, rest, -, -, -, rfl, -⟩ := closed.complete.parts
  rw [endAddress, size, closed.text_eq, List.length_append]
  simp only [List.length_cons]
  omega

/-- Two bytes have no room for a cache. -/
theorem HasEnd.movedBy_end (closed : IsClosed program.text chunks closing) (plain : closing.length = 2)
    (distance : Nat) : (Codec.decode closing 0).movedBy distance = Codec.decode closing 0 := by
  have noCache : (Codec.decode closing 0).cache = none := by
    by_contra hasCache
    obtain ⟨place, cache⟩ := Option.ne_none_iff_exists'.mp hasCache
    have atEnd := (closed.complete.cache_at_end cache).2
    rw [plain, Codec.cacheLength] at atEnd
    omega
  generalize Codec.decode closing 0 = decoded at noCache ⊢
  obtain ⟨instruction, length, cache⟩ := decoded
  obtain rfl : cache = none := noCache
  rfl

/-- There are lines in front of the end unless the end is at the start. -/
theorem HasEnd.eq_nil_iff (closed : IsClosed program.text chunks closing) :
    chunks.flatten.length = 0 ↔ chunks = [] := by
  constructor
  · intro nothing
    cases chunks with
    | nil => rfl
    | cons chunk chunks =>
        have positive := (closed.isLine chunk (by simp)).complete.length_pos
        rw [List.flatten_cons, List.length_append] at nothing
        omega
  · rintro rfl
    rfl

end

end Program

namespace Library

open Program (IsClosed HasEnd)

/-- All programs pass the check. -/
def IsAccepted (library : Library) : Prop := ∀ program ∈ library.programs, program.IsAccepted

variable {library next : Library} {index address : Nat} {instruction : Instruction}

/-- An accepted program takes the place of another one. -/
theorem IsAccepted.set (accepted : library.IsAccepted) {edited : Program}
    (isAccepted : edited.IsAccepted) : (library.set index edited).IsAccepted := by
  intro program member
  rcases List.mem_or_eq_of_mem_set member with isOld | rfl
  · exact accepted program isOld
  · exact isAccepted

/-- What is inserted at a line leaves accepted programs. -/
theorem IsAccepted.insert (accepted : library.IsAccepted)
    (atLine : library.IsLineAddress index address)
    (inserted : library.insert index address instruction = .ok next) : next.IsAccepted := by
  obtain ⟨bytes, program, encoded, found, -, rfl⟩ := insert_eq_ok inserted
  obtain ⟨complete, -, stored⟩ := Codec.decode_of_encode encoded
  have sameEnd : (Codec.decode bytes 0).instruction.isEnd = instruction.isEnd := by
    rw [stored]
    rfl
  obtain ⟨chunks, closing, closed⟩ :=
    Program.isAccepted_iff.mp (accepted program (List.mem_of_getElem? found))
  obtain ⟨line, isLine, rfl⟩ := atLine program found
  obtain ⟨front, behind, rfl, atCut⟩ := closed.exists_cut isLine
  rw [atCut]
  by_cases isEnd : instruction.isEnd
  · -- The lines in front of the cut get the new end, and the others keep theirs.
    obtain ⟨emptied, sameLength⟩ := closed.emptyCaches_cut
    rw [if_pos isEnd, ← sameLength]
    intro other member
    have places := List.mem_append.mp member
    rw [List.mem_cons, List.mem_cons] at places
    rcases places with isBefore | rfl | rfl | isAfter
    · exact accepted other (List.mem_of_mem_take isBefore)
    · exact (emptied.take_append (.of_closing complete (sameEnd.trans isEnd))).isAccepted
    · exact Program.IsAccepted.emptyCaches (HasEnd.isAccepted emptied.drop)
    · exact accepted other (List.mem_of_mem_drop isAfter)
  · have isNew : Program.IsLine (fun _ => True) bytes :=
      ⟨complete, by rw [sameEnd, Bool.eq_false_iff.mpr isEnd], trivial⟩
    have edited := (closed.insertBytes_emptyCaches isNew).isAccepted
    rw [if_neg isEnd]
    split
    · exact accepted.set edited
    · have moved : (library.shiftLabels index front.flatten.length bytes.length).IsAccepted := accepted
      exact moved.set edited

/-- What is deleted at a line leaves accepted programs. -/
theorem IsAccepted.delete (accepted : library.IsAccepted)
    (atLine : library.IsLineAddress index address) {result : Bool × Library}
    (deleted : library.delete index address = .ok result) : result.2.IsAccepted := by
  obtain ⟨program, decoded, found, read, cases⟩ := delete_eq_ok deleted
  obtain ⟨chunks, closing, closed⟩ :=
    Program.isAccepted_iff.mp (accepted program (List.mem_of_getElem? found))
  obtain ⟨line, isLine, rfl⟩ := atLine program found
  obtain ⟨front, behind, rfl, atCut⟩ := closed.exists_cut isLine
  rw [atCut] at read cases
  rcases cases with ⟨-, rfl⟩ | ⟨isEnd, -, next, isNext, -, rfl⟩ | ⟨noEnd, -, rfl⟩
  · exact accepted
  · -- What is in front of the end goes on with the next program.
    obtain ⟨later, nextClosing, hasNext⟩ :=
      Program.isAccepted_iff.mp (accepted next (List.mem_of_getElem? isNext))
    obtain ⟨emptied, sameLength⟩ := closed.emptyCaches_cut
    rw [← sameLength]
    intro other member
    have places := List.mem_append.mp member
    rw [List.mem_cons] at places
    rcases places with isBefore | rfl | isAfter
    · exact accepted other (List.mem_of_mem_take isBefore)
    · exact Program.IsAccepted.emptyCaches (HasEnd.isAccepted (emptied.take_append hasNext))
    · exact accepted other (List.mem_of_mem_drop isAfter)
  · cases behind with
    | nil =>
        rw [List.append_nil] at closed
        rw [← read, closed.decode_end, Codec.Decoded.movedBy_instruction, closed.isEnd] at noEnd
        cases noEnd
    | cons chunk behind =>
        have length : decoded.length = chunk.length := by
          rw [← read, closed.decode_eq, Codec.Decoded.movedBy_length,
            (closed.isLine chunk (by simp)).complete.decode_length]
        have edited := closed.removeBytes_emptyCaches.isAccepted
        rw [← length] at edited
        dsimp only
        split
        · exact accepted.set edited
        · have moved : (library.shiftLabels index front.flatten.length
              (-(decoded.length : Int))).IsAccepted := accepted
          exact moved.set edited

/-! ## The end of an accepted program -/

theorem get?_set {program : Program} (found : library.get? index = some program) (edited : Program) :
    (library.set index edited).get? index = some edited := by
  obtain ⟨within, -⟩ := List.getElem?_eq_some_iff.mp found
  exact List.getElem?_set_self within

/-- The two parts of a program that is cut in two stand at its place. -/
theorem get?_split {program : Program} (found : library.get? index = some program)
    (cut : Program) (address : Nat) (ending : List UInt8) :
    (library.split index cut address ending).get? index =
        some { cut with text := cut.text.take address ++ ending } ∧
      (library.split index cut address ending).get? (index + 1) =
        some (⟨cut.text.drop address, false, false⟩ : Program).emptyCaches := by
  obtain ⟨before, after, programs, rfl⟩ := exists_split_of_get? found
  simp [split, get?, ofPrograms, programs]

section

variable {program : Program} {chunks : List (List UInt8)} {closing : List UInt8}
  (found : library.get? index = some program) (closed : IsClosed program.text chunks closing)
  (plain : closing.length = 2)

include found closed plain

/-- Where two bytes are counted for the end, what is inserted there stands in front of it. -/
theorem lines_insert_endAddress (noEnd : instruction.isEnd = false)
    (inserted : library.insert index program.endAddress instruction = .ok next) :
    ∃ bytes edited, Codec.encode instruction = .ok bytes ∧ next.get? index = some edited ∧
      edited.lines = Program.placed 0 chunks ++
        [(program.endAddress, (Codec.decode bytes 0).movedBy program.endAddress),
          (program.endAddress + bytes.length,
            (Codec.decode closing 0).movedBy (program.endAddress + bytes.length))] := by
  obtain ⟨bytes, other, encoded, isOther, -, rfl⟩ := insert_eq_ok inserted
  obtain rfl := Option.some.inj (found.symm.trans isOther)
  obtain ⟨complete, -, stored⟩ := Codec.decode_of_encode encoded
  have isNew : Program.IsLine (fun _ => True) bytes := by
    refine ⟨complete, ?_, trivial⟩
    rw [stored]
    exact noEnd
  have lines := closed.lines_insert_at_end isNew
  rw [← closed.endAddress_eq_iff.mpr plain] at lines
  refine ⟨bytes, _, encoded, ?_, lines⟩
  rw [if_neg (by simp [noEnd])]
  split
  · exact get?_set found _
  · exact get?_set found _

/-- An end that is inserted there comes behind the lines, and leaves the old end alone. -/
theorem lines_insert_end_endAddress (isEnd : instruction.isEnd = true)
    (inserted : library.insert index program.endAddress instruction = .ok next) :
    ∃ bytes head tail, Codec.encode instruction = .ok bytes ∧ next.get? index = some head ∧
      next.get? (index + 1) = some tail ∧
      head.lines = Program.placed 0 chunks ++
        [(program.endAddress, (Codec.decode bytes 0).movedBy program.endAddress)] ∧
      tail.lines = [(0, (Codec.decode closing 0).movedBy 0)] := by
  obtain ⟨bytes, other, encoded, isOther, -, rfl⟩ := insert_eq_ok inserted
  obtain rfl := Option.some.inj (found.symm.trans isOther)
  obtain ⟨complete, -, stored⟩ := Codec.decode_of_encode encoded
  have endsHere : (Codec.decode bytes 0).instruction.isEnd = true := by
    rw [stored]
    exact isEnd
  have inFront := fun line member => (closed.isLine line member).complete
  have sameLength := program.length_flatten_clearedLines inFront
  have sameEnd := program.sameButCache_clearedEnd closed.complete
  have emptied := closed.emptyCaches
  rw [← List.append_nil (program.clearedLines chunks)] at emptied
  have atEnd := closed.endAddress_eq_iff.mpr plain
  obtain ⟨isHead, isTail⟩ := get?_split found program.emptyCaches program.endAddress bytes
  have headEnd : IsClosed ({ program.emptyCaches with
      text := program.emptyCaches.text.take program.endAddress ++ bytes } : Program).text
      (program.clearedLines chunks) bytes := by
    have taken := emptied.take_append (.of_closing complete endsHere)
    rwa [sameLength, ← atEnd, List.append_nil] at taken
  have tailEnd : IsClosed (⟨program.emptyCaches.text.drop program.endAddress, false, false⟩ :
      Program).text [] (program.clearedEnd closing) := by
    have dropped := emptied.drop
    rwa [sameLength, ← atEnd] at dropped
  rw [if_pos isEnd]
  refine ⟨bytes, _, _, encoded, isHead, isTail, ?_, ?_⟩
  · rw [headEnd.lines_eq_append_end, Program.placed_clearedLines program inFront, sameLength, atEnd]
  · have sameTail := Program.sameButCache_clearedEnd
      (⟨program.emptyCaches.text.drop program.endAddress, false, false⟩ : Program) sameEnd.complete
    rw [tailEnd.emptyCaches.lines_eq_append_end, sameTail.decode_eq, sameEnd.decode_eq]
    rfl

end

/-- Where all programs are accepted, each of them has its only end as its last line. The address that
counts as the end's is that line's if and only if the end has no argument; then the program is empty when
it has no other line, and what is inserted at the address stands between the other lines and the end. Edits
at lines leave accepted programs in any case. -/
theorem end_of_accepted_programs (accepted : library.IsAccepted) :
    (∀ index program, library.get? index = some program →
      ∃ lines ending, program.lines = lines ++ [ending] ∧
        program.lines.filter (fun line => line.2.instruction.isEnd) = [ending] ∧
        (program.endAddress = ending.1 ↔ ending.2.length = 2) ∧
        (ending.2.length = 2 →
          (program.isEmpty = true ↔ lines = []) ∧
          ∀ instruction next, library.insert index program.endAddress instruction = .ok next →
            ∃ bytes edited, Codec.encode instruction = .ok bytes ∧ next.get? index = some edited ∧
              if instruction.isEnd then
                edited.lines = lines ++
                    [(program.endAddress, (Codec.decode bytes 0).movedBy program.endAddress)] ∧
                  ∃ tail, next.get? (index + 1) = some tail ∧ tail.lines = [(0, ending.2)]
              else
                edited.lines = lines ++
                  [(program.endAddress, (Codec.decode bytes 0).movedBy program.endAddress),
                    (program.endAddress + bytes.length, ending.2)])) ∧
    (∀ index address instruction next, library.IsLineAddress index address →
      library.insert index address instruction = .ok next → next.IsAccepted) ∧
    ∀ index address result, library.IsLineAddress index address →
      library.delete index address = .ok result → result.2.IsAccepted := by
  refine ⟨fun index program found => ?_, fun _ _ _ _ atLine inserted => accepted.insert atLine inserted,
    fun _ _ _ atLine deleted => accepted.delete atLine deleted⟩
  obtain ⟨chunks, closing, closed⟩ :=
    Program.isAccepted_iff.mp (accepted program (List.mem_of_getElem? found))
  have length : ((Codec.decode closing 0).movedBy chunks.flatten.length).length = closing.length :=
    (Codec.Decoded.movedBy_length _ _).trans closed.complete.decode_length
  have endAddress := closed.endAddress_eq_iff
  rw [← length] at endAddress
  refine ⟨_, _, closed.lines_eq_append_end, closed.filter_isEnd, endAddress, fun plain => ⟨?_, ?_⟩⟩
  · rw [length] at plain
    rw [Program.isEmpty, beq_iff_eq, closed.endAddress_eq_iff.mpr plain, closed.eq_nil_iff]
    cases chunks <;> simp [Program.placed]
  · intro instruction next inserted
    rw [length] at plain
    dsimp only
    rw [closed.movedBy_end plain]
    split
    · next isEnd =>
        obtain ⟨bytes, head, tail, encoded, isHead, isTail, headLines, tailLines⟩ :=
          lines_insert_end_endAddress found closed plain isEnd inserted
        rw [closed.movedBy_end plain] at tailLines
        exact ⟨bytes, head, encoded, isHead, headLines, tail, isTail, tailLines⟩
    · next noEnd =>
        obtain ⟨bytes, edited, encoded, isEdited, lines⟩ :=
          lines_insert_endAddress found closed plain (by simpa using noEnd) inserted
        rw [closed.movedBy_end plain] at lines
        exact ⟨bytes, edited, encoded, isEdited, lines⟩

/-- A program of the number 1 and a plain end, and one of an end with an argument. -/
def withEndArgument : Library :=
  ofPrograms [⟨[0x94, 0x01, 0x81, 0x93, 0x00], true, false⟩, ⟨[0x93, 0x01, 0x80], true, false⟩]

/-- A label goes in front of the plain end at the address that counts as its own. The other end is at the
start, and the address that counts as its own is inside it. -/
theorem insert_label_withEndArgument :
    withEndArgument.IsAccepted ∧
    (∃ next edited lines, withEndArgument.insert 0 3 ⟨.label, .localLabel 65⟩ = .ok next ∧
      next.IsAccepted ∧ next.get? 0 = some edited ∧
      edited.lines = lines ++ [(3, ⟨⟨.label, .localLabel 65⟩, 3, none⟩),
        (6, ⟨.plain .endOfProgram, 2, none⟩)]) ∧
    ∃ program ending, withEndArgument.get? 1 = some program ∧ program.lines = [ending] ∧
      program.endAddress ≠ ending.1 := by
  have accepted : withEndArgument.IsAccepted := by
    simp only [IsAccepted]
    decide +kernel
  have encoded : Codec.encode ⟨.label, .localLabel 65⟩ = .ok [0x5E, 0x05, 0x41] := by decide +kernel
  have inserted : withEndArgument.insert 0 3 ⟨.label, .localLabel 65⟩ = .ok
      ((withEndArgument.shiftLabels 0 3 3).set 0
        ⟨[0x94, 0x01, 0x81, 0x5E, 0x05, 0x41, 0x93, 0x00], true, false⟩) := by
    decide +kernel
  obtain ⟨ends, inserts, -⟩ := end_of_accepted_programs accepted
  refine ⟨accepted, ?_, ?_⟩
  · obtain ⟨lines, ending, isLast, -, -, plain⟩ := ends 0 _ rfl
    have last : ending = (3, ⟨.plain .endOfProgram, 2, none⟩) := by
      have lastLine := congrArg List.getLast? isLast
      rw [List.getLast?_concat] at lastLine
      exact (Option.some.inj (lastLine.symm.trans (by decide +kernel)))
    obtain ⟨bytes, edited, isWritten, isEdited, stands⟩ := (plain (by rw [last])).2 _ _ inserted
    obtain rfl := Except.ok.inj (encoded.symm.trans isWritten)
    rw [if_neg (by decide), last] at stands
    refine ⟨_, edited, lines, inserted, inserts 0 3 _ _ (by decide +kernel) inserted, isEdited, ?_⟩
    exact stands.trans (congrArg (lines ++ ·) (by decide +kernel))
  · obtain ⟨lines, ending, isLast, -, address, -⟩ := ends 1 _ rfl
    have onlyLine : (⟨[0x93, 0x01, 0x80], true, false⟩ : Program).lines =
        [] ++ [(0, ⟨⟨.endOfProgram, .direct (.number 0)⟩, 3, none⟩)] := by
      decide +kernel
    obtain ⟨rfl, last⟩ := List.append_inj' (isLast.symm.trans onlyLine) rfl
    obtain rfl := List.singleton_inj.mp last
    exact ⟨_, _, rfl, onlyLine, fun same => absurd (address.mp same) (by decide)⟩

end Library

end Keystroke
