import Mathlib
import Keystroke.Proofs.AcceptedTexts
import Keystroke.Proofs.Typing.Keys
import Keystroke.Proofs.Walks

/-!
# Steps from line to line

The steps forward, the search backward and the numbers of the lines of a program agree. While a program is
entered, single steps go round a circle: line 00, all lines, the end and line 00 again.
-/

namespace Keystroke

namespace Program

variable {program : Program} {chunks : List (List UInt8)} {closing : List UInt8}

/-! ## The addresses of lines -/

/-- The addresses of lines that stand behind one another, and of the end behind them. -/
def lineAddresses (chunks : List (List UInt8)) : List Nat :=
  chunks.inits.map fun front => front.flatten.length

/-- The positions in a program: line 00, the lines and the end. -/
def positions (chunks : List (List UInt8)) : List (Option Nat) :=
  none :: (lineAddresses chunks).map some

theorem length_lineAddresses (chunks : List (List UInt8)) :
    (lineAddresses chunks).length = chunks.length + 1 := by
  simp [lineAddresses]

theorem length_positions (chunks : List (List UInt8)) : (positions chunks).length = chunks.length + 2 := by
  simp [positions, length_lineAddresses]

theorem getElem_lineAddresses (chunks : List (List UInt8)) {index : Nat}
    (inside : index < (lineAddresses chunks).length) :
    (lineAddresses chunks)[index] = (chunks.take index).flatten.length := by
  simp [lineAddresses]

theorem map_fst_placed (address : Nat) (chunks : List (List UInt8)) (closing : List UInt8) :
    (placed address (chunks ++ [closing])).map (·.1) = (lineAddresses chunks).map (address + ·) := by
  induction chunks generalizing address with
  | nil => rfl
  | cons chunk chunks rest =>
    simp [placed, rest, lineAddresses, Function.comp_def, Nat.add_assoc]

theorem HasEnd.map_fst_lines (closed : IsClosed program.text chunks closing) :
    program.lines.map (·.1) = lineAddresses chunks := by
  have complete : ∀ chunk ∈ chunks ++ [closing], Codec.IsComplete chunk := by
    intro chunk member
    rcases List.mem_append.mp member with isChunk | isClosing
    · exact (closed.isLine chunk isChunk).complete
    · rw [List.mem_singleton.mp isClosing]
      exact closed.complete
  have found := linesFrom_flatten complete []
  rw [List.nil_append, List.flatten_concat, ← closed.text_eq] at found
  have addresses := map_fst_placed 0 chunks closing
  simp only [Nat.zero_add, List.map_id'] at addresses
  rw [lines, ← addresses]
  exact congrArg (List.map (·.1)) found

/-- The walk through the text goes through the addresses of the lines. -/
theorem HasEnd.walk (closed : IsClosed program.text chunks closing) :
    Walk program.text 0 (lineAddresses chunks) := by
  obtain ⟨addresses, walk⟩ := exists_walk_of_check (Nat.zero_le _) closed.isAccepted
  have same := closed.map_fst_lines
  rw [walk.lines_eq, List.map_map] at same
  rwa [← same, show (fun line : Nat × Codec.Decoded => line.1) ∘ _ = id from rfl, List.map_id]

/-! ## From line to line -/

/-- The numbers in front of one of them, of numbers that ascend. -/
theorem takeWhile_lt_getElem {values : List Nat} (ascending : values.Pairwise (· < ·)) {index : Nat}
    (inside : index < values.length) : values.takeWhile (· < values[index]) = values.take index := by
  induction values generalizing index with
  | nil => cases inside
  | cons value values rest =>
    obtain ⟨first, ascending⟩ := List.pairwise_cons.mp ascending
    cases index with
    | zero => simp
    | succ index =>
      have inside : index < values.length := Nat.lt_of_succ_lt_succ inside
      have before : value < values[index] := first _ (List.getElem_mem inside)
      rw [List.getElem_cons_succ, List.takeWhile_cons_of_pos (by simpa using before), rest ascending inside,
        List.take_succ_cons]

section

variable (walk : Walk program.text 0 (lineAddresses chunks)) {index : Nat}

include walk

theorem Walk.previous_zero : program.previous 0 = none := by
  rw [walk.previous_eq]
  simp

theorem Walk.previous_getElem_succ (further : index + 1 < (lineAddresses chunks).length) :
    program.previous (lineAddresses chunks)[index + 1] = some (lineAddresses chunks)[index] := by
  rw [walk.previous_eq, takeWhile_lt_getElem walk.pairwise_lt further, List.getLast?_eq_getElem?,
    List.length_take, Nat.min_eq_left (Nat.le_of_lt further)]
  simp

theorem Walk.lineNumber_getElem (inside : index < (lineAddresses chunks).length) :
    program.lineNumber (lineAddresses chunks)[index] = index + 1 := by
  rw [walk.lineNumber_eq, takeWhile_lt_getElem walk.pairwise_lt inside, List.length_take,
    Nat.min_eq_left (Nat.le_of_lt inside)]

theorem Walk.next_getElem (further : index + 1 < (lineAddresses chunks).length) :
    program.next (lineAddresses chunks)[index] = (lineAddresses chunks)[index + 1] := by
  have steps (index : Nat) (inside : index < (lineAddresses chunks).length) :
      (lineAddresses chunks)[index] = program.next^[index] 0 := by
    rw [← List.getElem_iterate program.next 0 (lineAddresses chunks).length index (by simpa using inside)]
    simp only [walk.iterate_next.1]
  rw [steps index (by omega), steps (index + 1) further, Function.iterate_succ_apply']

theorem Walk.nodup_positions : (positions chunks).Nodup := by
  refine List.nodup_cons.mpr ⟨by simp, ?_⟩
  exact List.Nodup.map (Option.some_injective Nat) (walk.pairwise_lt.imp fun before => Nat.ne_of_lt before)

end

/-! ## Positions -/

/-- The position that a step forward leads to. -/
def positionAfter (program : Program) : Option Nat → Option Nat
  | none => some 0
  | some address => if program.endAddress ≤ address then none else some (program.next address)

/-- The position that a step backward leads to. -/
def positionBefore (program : Program) : Option Nat → Option Nat
  | none => some program.endAddress
  | some address => program.previous address

section

variable (closed : IsClosed program.text chunks closing) (plain : closing.length = 2) {index : Nat}

include closed plain

theorem HasEnd.endAddress_eq (inside : chunks.length < (lineAddresses chunks).length) :
    program.endAddress = (lineAddresses chunks)[chunks.length] := by
  rw [closed.endAddress_eq_iff.mpr plain, getElem_lineAddresses, List.take_length]

/-- The end is behind the lines. -/
theorem HasEnd.endAddress_le_iff (inside : index < (lineAddresses chunks).length) :
    program.endAddress ≤ (lineAddresses chunks)[index] ↔ index = chunks.length := by
  have ascending := List.pairwise_iff_getElem.mp closed.walk.pairwise_lt
  have count := length_lineAddresses chunks
  rw [closed.endAddress_eq plain (by omega)]
  constructor
  · intro behind
    by_contra other
    have before := ascending index chunks.length inside (by omega) (by omega)
    omega
  · rintro rfl
    exact Nat.le_refl _

/-- The walks through a program, by address and by number, agree on its lines. -/
structure HasNumberedLines (program : Program) (chunks : List (List UInt8)) : Prop where
  map_fst_lines : program.lines.map (·.1) = lineAddresses chunks
  previous_next (address : Nat) (isLine : address ∈ lineAddresses chunks)
    (inFront : address < chunks.flatten.length) : program.previous (program.next address) = some address
  previous_zero : program.previous 0 = none
  addressOfLine?_lineNumber (address : Nat) (isLine : address ∈ lineAddresses chunks) :
    program.addressOfLine? (program.lineNumber address) = some address
  lineNumber_addressOfLine? (number : Nat) (positive : 1 ≤ number) (within : number ≤ program.lines.length) :
    ∃ address, program.addressOfLine? number = some address ∧ program.lineNumber address = number
  addressOfLine?_outside (number : Nat) (outside : number = 0 ∨ program.lines.length < number) :
    program.addressOfLine? number = none

theorem HasEnd.hasNumberedLines : program.HasNumberedLines chunks := by
  have walk := closed.walk
  have count : program.lines.length = (lineAddresses chunks).length := by
    rw [← closed.map_fst_lines, List.length_map]
  constructor
  case map_fst_lines => exact closed.map_fst_lines
  case previous_zero => exact walk.previous_zero
  case previous_next =>
    intro address isLine inFront
    obtain ⟨index, inside, rfl⟩ := List.mem_iff_getElem.mp isLine
    have noEnd : index ≠ chunks.length := by
      rintro rfl
      rw [← closed.endAddress_eq_iff.mpr plain, closed.endAddress_eq plain inside] at inFront
      exact Nat.lt_irrefl _ inFront
    have further : index + 1 < (lineAddresses chunks).length := by
      have count := length_lineAddresses chunks
      omega
    rw [walk.next_getElem further, walk.previous_getElem_succ further]
  case addressOfLine?_lineNumber =>
    intro address isLine
    obtain ⟨index, inside, rfl⟩ := List.mem_iff_getElem.mp isLine
    rw [walk.lineNumber_getElem inside, walk.addressOfLine?_succ, List.getElem?_eq_getElem inside]
  case lineNumber_addressOfLine? =>
    intro number positive within
    obtain ⟨index, rfl⟩ : ∃ index, number = index + 1 := ⟨number - 1, by omega⟩
    have inside : index < (lineAddresses chunks).length := by omega
    exact ⟨_, (walk.addressOfLine?_succ index).trans (List.getElem?_eq_getElem inside),
      walk.lineNumber_getElem inside⟩
  case addressOfLine?_outside =>
    rintro number (rfl | outside)
    · rfl
    · obtain ⟨index, rfl⟩ : ∃ index, number = index + 1 := ⟨number - 1, by omega⟩
      rw [walk.addressOfLine?_succ, List.getElem?_eq_none (by omega)]

/-- Steps forward go round the positions. -/
theorem HasEnd.positionAfter_getElem (inside : index < (positions chunks).length)
    (insideAfter : (index + 1) % (positions chunks).length < (positions chunks).length) :
    program.positionAfter (positions chunks)[index] =
      (positions chunks)[(index + 1) % (positions chunks).length] := by
  have count := length_lineAddresses chunks
  have positionCount := length_positions chunks
  cases index with
  | zero =>
    have first : (lineAddresses chunks)[0] = 0 := by rw [getElem_lineAddresses]; rfl
    have within : (0 + 1) % (positions chunks).length = 1 := Nat.mod_eq_of_lt (by omega)
    simp only [within]
    simp [positions, positionAfter, first]
  | succ index =>
    have inside : index < (lineAddresses chunks).length := by omega
    have here : (positions chunks)[index + 1] = some (lineAddresses chunks)[index] := by simp [positions]
    rw [here, positionAfter]
    by_cases last : index = chunks.length
    · have around : (index + 1 + 1) % (positions chunks).length = 0 := by
        rw [positionCount, last, Nat.mod_self]
      rw [if_pos ((closed.endAddress_le_iff plain inside).mpr last)]
      simp only [around]
      rfl
    · have within : (index + 1 + 1) % (positions chunks).length = index + 1 + 1 := Nat.mod_eq_of_lt (by omega)
      rw [if_neg fun behind => last ((closed.endAddress_le_iff plain inside).mp behind),
        closed.walk.next_getElem (by omega)]
      simp only [within]
      simp [positions]

/-- Steps backward go round the positions the other way. -/
theorem HasEnd.positionBefore_getElem (inside : index < (positions chunks).length)
    (insideAfter : (index + 1) % (positions chunks).length < (positions chunks).length) :
    program.positionBefore (positions chunks)[(index + 1) % (positions chunks).length] =
      (positions chunks)[index] := by
  have count := length_lineAddresses chunks
  have positionCount := length_positions chunks
  by_cases last : index = chunks.length + 1
  · subst last
    have around : (chunks.length + 1 + 1) % (positions chunks).length = 0 := by
      rw [positionCount, Nat.mod_self]
    simp only [around]
    simp [positions, positionBefore, closed.endAddress_eq plain (by omega)]
  · have within : (index + 1) % (positions chunks).length = index + 1 := Nat.mod_eq_of_lt (by omega)
    have there : (positions chunks)[index + 1] = some (lineAddresses chunks)[index] := by simp [positions]
    simp only [within, there, positionBefore]
    cases index with
    | zero => rw [getElem_lineAddresses]; exact closed.walk.previous_zero
    | succ index => rw [closed.walk.previous_getElem_succ (by omega)]; simp [positions]

end

end Program

namespace Machine

open Program (IsClosed HasEnd lineAddresses positions)

/-! ## Single steps -/

/-- The command to go to the next line. -/
def stepForward (machine : Machine) : Machine := machine.enterInstruction (.plain .singleStep)

/-- The command to go to the line before. -/
def stepBackward (machine : Machine) : Machine := machine.enterInstruction (.plain .backStep)

/-- A program is being entered, and the current line is at one of its positions. -/
structure IsAtPosition (machine : Machine) (chunks : List (List UInt8)) (index : Nat) : Prop where
  stopped : machine.isRunning = false
  isProgramming : machine.isProgramming = true
  program : ∃ program closing, machine.library.get? machine.program = some program ∧
    IsClosed program.text chunks closing ∧ closing.length = 2
  inside : index < (positions chunks).length
  address : machine.address = (positions chunks)[index]

variable {machine : Machine} {chunks : List (List UInt8)} {index : Nat}

/-- Another line is the current one, of the same program that is being entered. -/
structure MovesTo (machine left : Machine) (position : Option Nat) : Prop where
  stopped : left.isRunning = false
  isProgramming : left.isProgramming = true
  library : left.library = machine.library
  program : left.program = machine.program
  address : left.address = position

/-- A command from the keyboard that does no more than move the current line. -/
theorem movesTo_enterInstruction (stopped : machine.isRunning = false)
    (isProgramming : machine.isProgramming = true) {opcode : Opcode}
    (executed : isAlwaysExecuted opcode = true) (allowed : opcode.isOnlyInPrograms = false)
    {position : Option Nat}
    (performed : ∀ printsOnStop, (perform (.plain opcode) .none).on { machine with printsOnStop } =
      (.ok (), ({ machine with printsOnStop, address := position } : Machine).afterCommand opcode)) :
    machine.MovesTo (machine.enterInstruction (.plain opcode)) position := by
  have moved (printsOnStop : Bool) : machine.MovesTo
      (({ machine with printsOnStop, address := position } : Machine).afterCommand opcode) position := by
    rw [afterCommand]
    split <;> exact ⟨stopped, isProgramming, rfl, rfl, rfl⟩
  have stays {left : Machine} (moved : machine.MovesTo left position) :
      machine.MovesTo (if left.isBusy then left else left.stop) position := by
    split
    · exact moved
    · obtain ⟨_, _, _, same, -⟩ := left.exists_stop_eq
      rw [same]
      exact { moved with stopped := rfl }
  rw [enterInstruction_of_performed stopped (fun _ => executed) allowed (fun _ => isProgramming)
    (performed _)]
  exact stays (moved _)

theorem nextLine_eq {program : Program} (found : machine.library.get? machine.program = some program) :
    machine.nextLine = { machine with address := program.positionAfter machine.address } := by
  rw [nextLine, found]
  cases machine.address <;> rfl

theorem previousLine_eq {program : Program} (found : machine.library.get? machine.program = some program) :
    machine.previousLine = { machine with address := program.positionBefore machine.address } := by
  rw [previousLine, found]
  cases machine.address <;> rfl

theorem movesTo_stepForward (stopped : machine.isRunning = false)
    (isProgramming : machine.isProgramming = true) {program : Program}
    (found : machine.library.get? machine.program = some program) :
    machine.MovesTo machine.stepForward (program.positionAfter machine.address) := by
  refine movesTo_enterInstruction stopped isProgramming rfl rfl fun printsOnStop => ?_
  rw [← @nextLine_eq { machine with printsOnStop } program found]
  rfl

theorem movesTo_stepBackward (stopped : machine.isRunning = false)
    (isProgramming : machine.isProgramming = true) {program : Program}
    (found : machine.library.get? machine.program = some program) :
    machine.MovesTo machine.stepBackward (program.positionBefore machine.address) := by
  refine movesTo_enterInstruction stopped isProgramming rfl rfl fun printsOnStop => ?_
  rw [← @previousLine_eq { machine with printsOnStop } program found]
  rfl

/-! ## Round the positions -/

theorem IsAtPosition.stepForward (isAt : machine.IsAtPosition chunks index) :
    machine.stepForward.IsAtPosition chunks ((index + 1) % (positions chunks).length) := by
  obtain ⟨program, closing, found, closed, plain⟩ := isAt.program
  have moves := movesTo_stepForward isAt.stopped isAt.isProgramming found
  refine ⟨moves.stopped, moves.isProgramming, ⟨program, closing, ?_, closed, plain⟩,
    Nat.mod_lt _ (Nat.zero_lt_of_lt isAt.inside), ?_⟩
  · rw [moves.library, moves.program, found]
  · rw [moves.address, isAt.address, closed.positionAfter_getElem plain]

theorem IsAtPosition.stepBackward (inside : index < (positions chunks).length)
    (isAt : machine.IsAtPosition chunks ((index + 1) % (positions chunks).length)) :
    machine.stepBackward.IsAtPosition chunks index := by
  obtain ⟨program, closing, found, closed, plain⟩ := isAt.program
  have moves := movesTo_stepBackward isAt.stopped isAt.isProgramming found
  refine ⟨moves.stopped, moves.isProgramming, ⟨program, closing, ?_, closed, plain⟩, inside, ?_⟩
  · rw [moves.library, moves.program, found]
  · rw [moves.address, isAt.address, closed.positionBefore_getElem plain]

/-- Every position is behind another one. -/
theorem exists_index_before (inside : index < (positions chunks).length) :
    ∃ before, before < (positions chunks).length ∧ (before + 1) % (positions chunks).length = index := by
  cases index with
  | zero =>
    exact ⟨(positions chunks).length - 1, by omega, by rw [Nat.sub_add_cancel (by omega), Nat.mod_self]⟩
  | succ index => exact ⟨index, by omega, Nat.mod_eq_of_lt inside⟩

theorem IsAtPosition.iterate_stepForward (isAt : machine.IsAtPosition chunks index) (count : Nat) :
    (Machine.stepForward^[count] machine).IsAtPosition chunks
      ((index + count) % (positions chunks).length) := by
  induction count with
  | zero => simpa [Nat.mod_eq_of_lt isAt.inside] using isAt
  | succ count before =>
    rw [Function.iterate_succ_apply']
    have after := before.stepForward
    rwa [Nat.mod_add_mod, Nat.add_assoc] at after

/-- As many steps forward as there are positions visit all of them, beginning with the present one. -/
theorem IsAtPosition.map_address (isAt : machine.IsAtPosition chunks index) :
    (List.iterate Machine.stepForward machine (positions chunks).length).map (·.address) =
      (positions chunks).rotate index := by
  apply List.ext_getElem
  · simp
  · intro count visited inside
    rw [List.getElem_map, List.getElem_iterate, (isAt.iterate_stepForward count).address, List.getElem_rotate]
    simp only [Nat.add_comm]

/-- A machine that enters a well-formed program and stands at one of its positions. -/
theorem exists_isAtPosition (stopped : machine.isRunning = false)
    (isProgramming : machine.isProgramming = true) {program : Program} {closing : List UInt8}
    (found : machine.library.get? machine.program = some program)
    (closed : IsClosed program.text chunks closing) (plain : closing.length = 2)
    (isPosition : machine.address ∈ positions chunks) : ∃ index, machine.IsAtPosition chunks index := by
  obtain ⟨index, inside, same⟩ := List.mem_iff_getElem.mp isPosition
  exact ⟨index, stopped, isProgramming, ⟨program, closing, found, closed, plain⟩, inside, same.symm⟩

/-- Single steps go round the positions in both directions. -/
structure GoesRound (machine : Machine) (chunks : List (List UInt8)) : Prop where
  backward_forward : machine.stepForward.stepBackward.address = machine.address
  forward_backward : machine.stepBackward.stepForward.address = machine.address
  nodup_positions : (positions chunks).Nodup
  visited : ((List.iterate stepForward machine (positions chunks).length).map (·.address)).Perm
    (positions chunks)
  returned : (stepForward^[(positions chunks).length] machine).address = machine.address
  typed (idle : machine.IsIdle) :
    machine.enter "SST" = (true, machine.stepForward) ∧ machine.enter "BST" = (true, machine.stepBackward)

theorem IsAtPosition.goesRound (isAt : machine.IsAtPosition chunks index) : machine.GoesRound chunks := by
  obtain ⟨before, inside, rfl⟩ := exists_index_before isAt.inside
  obtain ⟨program, closing, -, closed, -⟩ := isAt.program
  have back := isAt.stepForward.stepBackward isAt.inside
  have forth := (isAt.stepBackward inside).stepForward
  have round := isAt.iterate_stepForward (positions chunks).length
  rw [Nat.add_mod_right, Nat.mod_mod] at round
  refine ⟨back.address.trans isAt.address.symm, forth.address.trans isAt.address.symm,
    closed.walk.nodup_positions, isAt.map_address ▸ List.rotate_perm ..,
    round.address.trans isAt.address.symm, fun idle => ⟨?_, ?_⟩⟩
  · exact @enter_name _ idle ⟨false, 23⟩ .singleStep rfl
  · exact @enter_name _ idle ⟨false, 18⟩ .backStep rfl

/-- In a program of lines and an end of two bytes, the walks by address and by number agree, and while it is
entered single steps go round its positions: line 00, the lines and the end. -/
theorem line_navigation_consistent {program : Program} {chunks : List (List UInt8)} {closing : List UInt8}
    (closed : IsClosed program.text chunks closing) (plain : closing.length = 2) :
    program.HasNumberedLines chunks ∧
      ∀ machine : Machine, machine.isRunning = false → machine.isProgramming = true →
        machine.library.get? machine.program = some program → machine.address ∈ positions chunks →
          machine.GoesRound chunks := by
  refine ⟨closed.hasNumberedLines plain, fun machine stopped isProgramming found isPosition => ?_⟩
  obtain ⟨index, isAt⟩ := exists_isAtPosition stopped isProgramming found closed plain isPosition
  exact isAt.goesRound

/-- A jump with a cache, a small number and the end: four positions. -/
theorem line_navigation_consistent_jump :
    let chunks : List (List UInt8) := [[146, 1, 2, 172, 255, 255, 255, 255], [148, 2, 170]]
    let program : Program := ⟨chunks.flatten ++ [147, 0], false, false⟩
    let machine : Machine := { initial default with
      library := .ofPrograms [program], isProgramming := true, address := some 11 }
    positions chunks = [none, some 0, some 8, some 11] ∧ IsClosed program.text chunks [147, 0] ∧
      program.HasNumberedLines chunks ∧ machine.GoesRound chunks := by
  intro chunks program machine
  have closed : IsClosed program.text chunks [147, 0] := by
    refine ⟨fun chunk member => ?_, by decide +kernel, by decide +kernel, rfl⟩
    simp only [chunks, List.mem_cons, List.not_mem_nil, or_false] at member
    obtain rfl | rfl := member <;> exact ⟨by decide +kernel, by decide +kernel, trivial⟩
  obtain ⟨numbered, round⟩ := line_navigation_consistent closed rfl
  exact ⟨rfl, closed, numbered, round machine rfl rfl rfl (by decide)⟩

end Machine

end Keystroke
