import Keystroke.Proofs.LabelTable
import Keystroke.Proofs.ReadBounds

/-!
# Walks through programs

The check of a text of unknown origin walks it by the lengths of its instructions. Everything that walks
an accepted program later goes the same way, from its start to its end: its lines, the steps forward, the
search backward, the numbers of its lines, the emptying of its jump caches and the label table.
-/

namespace Keystroke

namespace Program

/-- The addresses of the instructions of a text from an address on, up to the end of the text. -/
inductive Walk (text : List UInt8) : Nat → List Nat → Prop
  | finish : Walk text text.length []
  | line {address length : Nat} {rest : List Nat} (known : Codec.length? text address = some length)
    (further : Walk text (address + length) rest) : Walk text address (address :: rest)

/-- The check of a text walks it to its end. -/
theorem exists_walk_of_check {text : List UInt8} {address : Nat} {ended : Bool}
    (within : address ≤ text.length) (checked : check text address ended = .ok ()) :
    ∃ addresses, Walk text address addresses := by
  fun_induction check text address ended with
  | case1 address inside => cases checked
  | case2 address ended inside notEnded unknown => cases checked
  | case3 address ended inside notEnded length known positive ih =>
      have fits := (Codec.decode_of_length? known).2.1
      obtain ⟨rest, further⟩ := ih fits checked
      exact ⟨address :: rest, .line known further⟩
  | case4 address ended inside notEnded length known notPositive => cases checked
  | case5 address outside =>
      obtain rfl : address = text.length := by omega
      exact ⟨[], .finish⟩
  | case6 address ended outside notEnded => cases checked

namespace Walk

variable {text : List UInt8} {address : Nat} {addresses : List Nat}

/-- Every address of a walk is that of an instruction, at or behind the start of the walk. -/
theorem of_mem (walk : Walk text address addresses) {other : Nat} (member : other ∈ addresses) :
    address ≤ other ∧ ∃ length, Codec.length? text other = some length := by
  induction walk with
  | finish => cases member
  | @line address length rest known _ ih =>
      rcases List.mem_cons.mp member with rfl | later
      · exact ⟨Nat.le_refl _, length, known⟩
      · obtain ⟨behind, isInstruction⟩ := ih later
        exact ⟨by omega, isInstruction⟩

theorem pairwise_lt (walk : Walk text address addresses) : addresses.Pairwise (· < ·) := by
  induction walk with
  | finish => exact .nil
  | @line address length rest known further ih =>
      have atLeastTwo := (Codec.decode_of_length? known).1
      refine List.pairwise_cons.mpr ⟨fun other member => ?_, ih⟩
      have behind := (further.of_mem member).1
      omega

/-- The lines of a text are read along the walk. -/
theorem linesFrom_eq (walk : Walk text address addresses) :
    linesFrom text address = addresses.map fun address => (address, Codec.decode text address) := by
  induction walk with
  | finish => rw [linesFrom, if_neg (Nat.lt_irrefl _), List.map_nil]
  | @line address length rest known _ ih =>
      obtain ⟨atLeastTwo, fits, -, same, -⟩ := Codec.decode_of_length? known
      rw [linesFrom, if_pos (by omega), same, ih, List.map_cons]

section

variable {program : Program}

theorem next_eq {length : Nat} (known : Codec.length? program.text address = some length) :
    program.next address = address + length := by
  rw [next, Codec.length, known, Option.getD_some]

/-- The steps forward go along the walk, to the end. -/
theorem iterate_next (walk : Walk program.text address addresses) :
    List.iterate program.next address addresses.length = addresses ∧
      program.next^[addresses.length] address = program.size := by
  induction walk with
  | finish => exact ⟨rfl, rfl⟩
  | @line address length rest known _ ih =>
      rw [List.length_cons, List.iterate, Function.iterate_succ_apply, next_eq known, ih.1]
      exact ⟨rfl, ih.2⟩

/-- The search backward goes along the walk as far as it has to. -/
theorem lastBefore_eq (walk : Walk program.text address addresses) {limit fuel : Nat}
    {last : Option Nat} (enough : addresses.length < fuel) :
    program.lastBefore limit last fuel address =
      ((addresses.takeWhile (· < limit)).getLast?).or last := by
  -- the address that was found last changes with every step, so it is not fixed in the induction
  induction walk generalizing fuel last with
  | finish =>
      obtain ⟨fuel, rfl⟩ : ∃ less, fuel = less + 1 := ⟨fuel - 1, by omega⟩
      rw [lastBefore, if_neg fun inside => Nat.lt_irrefl _ inside.2]
      simp
  | @line address length rest known _ ih =>
      obtain ⟨fuel, rfl⟩ : ∃ less, fuel = less + 1 := ⟨fuel - 1, by omega⟩
      obtain ⟨atLeastTwo, fits, -⟩ := Codec.decode_of_length? known
      have inside : address < program.size := by
        rw [size]
        omega
      rw [List.length_cons] at enough
      rw [lastBefore]
      by_cases before : address < limit
      · rw [if_pos ⟨before, inside⟩, next_eq known, ih (by omega)]
        simp [before, List.getLast?_cons]
      · rw [if_neg fun both => before both.1]
        simp [before]

theorem length_le (walk : Walk text address addresses) :
    address + addresses.length ≤ text.length := by
  induction walk with
  | finish => exact Nat.le_refl _
  | @line address length rest known _ ih =>
      have atLeastTwo := (Codec.decode_of_length? known).1
      rw [List.length_cons]
      omega

variable (walk : Walk program.text 0 addresses)

include walk

theorem lines_eq : program.lines = addresses.map fun address => (address, program.decode address) :=
  walk.linesFrom_eq

/-- Each instruction on the walk is read from its own bytes. -/
theorem decode_eq {address : Nat} (member : address ∈ addresses) :
    ∃ length, address + length ≤ program.size ∧
      (Codec.window program.text address (address + length)).decode program.size address =
        some (program.decode address) := by
  obtain ⟨-, length, known⟩ := walk.of_mem member
  obtain ⟨-, inside, read, -, -⟩ := Codec.decode_of_length? known
  exact ⟨length, inside, read⟩

theorem previous_eq (limit : Nat) :
    program.previous limit = (addresses.takeWhile (· < limit)).getLast? := by
  have inside := walk.length_le
  rw [previous, walk.lastBefore_eq (by rw [size]; omega), Option.or_none]

theorem lineNumber_eq (limit : Nat) :
    program.lineNumber limit = (addresses.takeWhile (· < limit)).length + 1 := by
  rw [lineNumber, walk.lines_eq, List.takeWhile_map, List.length_map]
  rfl

theorem addressOfLine?_succ (count : Nat) :
    program.addressOfLine? (count + 1) = addresses[count]? := by
  rw [addressOfLine?, if_neg (Nat.succ_ne_zero count), Nat.add_sub_cancel, walk.lines_eq,
    List.getElem?_map, Option.map_map]
  have sameAddress : (fun line : Nat × Codec.Decoded => line.1) ∘
      (fun address => (address, program.decode address)) = id := rfl
  rw [sameAddress, Option.map_id, id]

theorem labelsFrom_cons (index : Nat) (rest : List Program) :
    Library.labelsFrom index (program :: rest) =
      addresses.filterMap (fun address =>
        Library.labelOfLine? index (address, program.decode address)) ++
        Library.labelsFrom (index + 1) rest := by
  rw [Library.labelsFrom, walk.lines_eq, List.filterMap_map, Function.comp_def]

end

end Walk

/-! ## Emptying caches in place -/

/-- Empty the cache of an instruction that was read, which must be inside of the text. -/
def emptyCacheOf (text : List UInt8) (decoded : Codec.Decoded) : Option (List UInt8) :=
  match decoded.cache with
  | none => some text
  | some place =>
    if place + Codec.cacheLength ≤ text.length then some (Codec.writeCache text place none)
    else none

/-- Empty all jump caches from an address on while the text is walked: each instruction is read from the
text as it then is. Gives the addresses on the way and the text in the end, unless a byte outside of the
text was read or written. -/
def emptyInPlace : Nat → List UInt8 → Nat → Option (List Nat × List UInt8)
  | 0, _, _ => none
  | fuel + 1, text, address =>
    if address < text.length then do
      let decoded ← Codec.Source.decode (text[·]?) text.length address
      let text ← emptyCacheOf text decoded
      let (visited, text) ← emptyInPlace fuel text (address + decoded.length)
      return (address :: visited, text)
    else some ([], text)

/-- The cache of an instruction is emptied where it stands. -/
theorem emptyCacheOf_eq {chunk : List UInt8} (complete : Codec.IsComplete chunk)
    (before after : List UInt8) :
    emptyCacheOf (before ++ chunk ++ after) ((Codec.decode chunk 0).movedBy before.length) =
      some (before ++ Codec.emptied chunk ++ after) := by
  rw [emptyCacheOf, Codec.Decoded.movedBy_cache, Codec.emptied]
  cases cache : (Codec.decode chunk 0).cache with
  | none => rfl
  | some place =>
      have atEnd := (complete.cache_at_end cache).2
      have inside : before.length + place + Codec.cacheLength ≤
          (before ++ chunk ++ after).length := by
        simp only [List.length_append]
        omega
      simp only [Option.map_some, Option.getD_some, if_pos inside,
        Codec.writeCache_append before chunk after none (Nat.le_of_eq atEnd)]

/-- Emptying caches in place goes through the instructions as they stand, and empties the cache of each. -/
theorem emptyInPlace_flatten {chunks : List (List UInt8)}
    (complete : ∀ chunk ∈ chunks, Codec.IsComplete chunk) (before : List UInt8) {fuel : Nat}
    (enough : chunks.length < fuel) :
    emptyInPlace fuel (before ++ chunks.flatten) before.length =
      some ((placed before.length chunks).map (·.1),
        before ++ (chunks.map Codec.emptied).flatten) := by
  -- once its cache is empty, an instruction stands in front of the text that is still to be walked
  induction chunks generalizing before fuel with
  | nil =>
      obtain ⟨fuel, rfl⟩ : ∃ less, fuel = less + 1 := ⟨fuel - 1, by omega⟩
      simp [emptyInPlace, placed]
  | cons chunk chunks ih =>
      obtain ⟨fuel, rfl⟩ : ∃ less, fuel = less + 1 := ⟨fuel - 1, by omega⟩
      rw [List.length_cons] at enough
      have first := complete chunk List.mem_cons_self
      have rest := ih (fun other member => complete other (List.mem_cons_of_mem chunk member))
        (before ++ Codec.emptied chunk) (Nat.lt_of_succ_lt_succ enough)
      rw [List.length_append, first.emptied_sameButCache.length_eq first] at rest
      have inside : before.length + chunk.length ≤ (before ++ chunk ++ chunks.flatten).length := by
        simp only [List.length_append]
        omega
      have positive := first.length_pos
      have read := (Codec.Source.shows_getElem? before chunk chunks.flatten).decode inside first
      rw [List.flatten_cons, ← List.append_assoc, emptyInPlace, if_pos (by omega), read]
      simp only [Option.bind_eq_bind, Option.bind_some, emptyCacheOf_eq first,
        Codec.Decoded.movedBy_length, first.decode_length, rest]
      simp [placed]

/-- The walk of an accepted text empties the caches in place, with no byte outside of the text. -/
theorem Walk.emptyInPlace_eq {text : List UInt8} {addresses : List Nat}
    (walk : Walk text 0 addresses) (accepted : EndsOnce text) :
    emptyInPlace (text.length + 1) text 0 = some (addresses, withoutCaches text) := by
  obtain ⟨chunks, closing, rfl, isLine, completeClosing, -⟩ := accepted
  have complete : ∀ chunk ∈ chunks ++ [closing], Codec.IsComplete chunk := by
    intro chunk member
    rcases List.mem_append.mp member with isChunk | isClosing
    · exact (isLine chunk isChunk).complete
    · rwa [List.mem_singleton.mp isClosing]
  rw [← List.flatten_concat] at walk ⊢
  have lines : placed 0 (chunks ++ [closing]) =
      addresses.map fun address => (address, Codec.decode (chunks ++ [closing]).flatten address) :=
    (linesFrom_flatten complete []).symm.trans walk.linesFrom_eq
  -- the fuel is counted in bytes, the steps in instructions: every one of these has bytes
  have count : (chunks ++ [closing]).length = addresses.length := by
    have sizes := congrArg List.length (map_instruction_placed 0 (chunks ++ [closing]))
    rw [List.length_map, List.length_map, lines, List.length_map] at sizes
    exact sizes.symm
  have inside := walk.length_le
  have enough : (chunks ++ [closing]).length < (chunks ++ [closing]).flatten.length + 1 := by omega
  have emptied := emptyInPlace_flatten complete [] enough
  rw [List.nil_append, List.nil_append, List.length_nil, lines,
    ← withoutCaches_flatten complete] at emptied
  rw [emptied]
  simp [Function.comp_def]

/-! ## Everything that walks a program -/

/-- Everything that walks a program visits these addresses, and no others. -/
structure GoesAlong (program : Program) (addresses : List Nat) : Prop where
  decode_eq (address : Nat) (member : address ∈ addresses) :
    ∃ length, address + length ≤ program.size ∧
      (Codec.window program.text address (address + length)).decode program.size address =
        some (program.decode address)
  lines_eq : program.lines = addresses.map fun address => (address, program.decode address)
  next_eq : List.iterate program.next 0 addresses.length = addresses
  next_end : program.next^[addresses.length] 0 = program.size
  previous_eq (limit : Nat) :
    program.previous limit = (addresses.takeWhile (· < limit)).getLast?
  lineNumber_eq (limit : Nat) :
    program.lineNumber limit = (addresses.takeWhile (· < limit)).length + 1
  addressOfLine?_eq (count : Nat) : program.addressOfLine? (count + 1) = addresses[count]?
  emptyInPlace_eq :
    emptyInPlace (program.size + 1) program.text 0 = some (addresses, withoutCaches program.text)
  labelsFrom_eq (index : Nat) (rest : List Program) :
    Library.labelsFrom index (program :: rest) =
      addresses.filterMap (fun address =>
        Library.labelOfLine? index (address, program.decode address)) ++
        Library.labelsFrom (index + 1) rest

/-- Wherever the validator finds the length of an instruction, in whatever bytes, reading it takes no byte
outside of these, gives the same length, and the jump cache is the last of them. So for a text that is
accepted as a program, everything that walks it visits the addresses that the validator did, from its start
to its end, and only bytes of the text are read or written. -/
theorem validator_and_decoder_agree :
    (∀ (bytes : List UInt8) (address length : Nat), Codec.length? bytes address = some length →
      2 ≤ length ∧ address + length ≤ bytes.length ∧
        (Codec.window bytes address (address + length)).decode bytes.length address =
          some (Codec.decode bytes address) ∧
        (Codec.decode bytes address).length = length ∧
        ∀ place, (Codec.decode bytes address).cache = some place →
          place + Codec.cacheLength = address + length) ∧
    ∀ (text : List UInt8) (cachesEmpty isLocked : Bool) (program : Program),
      ofBytes text cachesEmpty isLocked = .ok program →
        ∃ addresses, program.text = text ∧ Walk text 0 addresses ∧ addresses.Pairwise (· < ·) ∧
          program.GoesAlong addresses := by
  refine ⟨fun bytes address length known => Codec.decode_of_length? known,
    fun text cachesEmpty isLocked program accepted => ?_⟩
  obtain ⟨checked, rfl⟩ :
      check text 0 false = .ok () ∧ program = ⟨text, cachesEmpty, isLocked⟩ := by
    rw [ofBytes] at accepted
    cases checked : check text 0 false with
    | error error => simp [checked, bind, Except.bind] at accepted
    | ok _ =>
        simp only [checked, bind, Except.bind] at accepted
        exact ⟨rfl, (Except.ok.inj accepted).symm⟩
  obtain ⟨addresses, walk⟩ := exists_walk_of_check (Nat.zero_le _) checked
  have ofProgram : Walk (⟨text, cachesEmpty, isLocked⟩ : Program).text 0 addresses := walk
  exact ⟨addresses, rfl, walk, walk.pairwise_lt,
    { decode_eq := fun address member => ofProgram.decode_eq member
      lines_eq := ofProgram.lines_eq
      next_eq := ofProgram.iterate_next.1
      next_end := ofProgram.iterate_next.2
      previous_eq := ofProgram.previous_eq
      lineNumber_eq := ofProgram.lineNumber_eq
      addressOfLine?_eq := ofProgram.addressOfLine?_succ
      emptyInPlace_eq := walk.emptyInPlace_eq (check_eq_ok_iff.mp checked)
      labelsFrom_eq := ofProgram.labelsFrom_cons }⟩

/-- A jump that remembers its target, its label and an end. -/
theorem walk_of_jump_and_label :
    let text : List UInt8 := [146, 1, 129, 0, 0, 0, 7, 94, 1, 129, 147, 0]
    Codec.length? text 0 = some 7 ∧
      (Codec.window text 0 7).decode 12 0 = some (Codec.decode text 0) ∧
      (Codec.decode text 0).cache = some 3 ∧
      ∃ program, ofBytes text false false = .ok program ∧ program.GoesAlong [0, 7, 10] := by
  intro text
  obtain ⟨reading, walking⟩ := validator_and_decoder_agree
  have known : Codec.length? text 0 = some 7 := by decide +kernel
  obtain ⟨-, -, fromWindow, -, -⟩ := reading text 0 7 known
  have accepted : ofBytes text false false = .ok ⟨text, false, false⟩ := by decide +kernel
  obtain ⟨addresses, -, -, -, along⟩ := walking text false false _ accepted
  have lines : (⟨text, false, false⟩ : Program).lines.map (·.1) = [0, 7, 10] := by decide +kernel
  have same : addresses = [0, 7, 10] := by
    rw [← lines, along.lines_eq, List.map_map]
    exact (List.map_id addresses).symm
  rw [same] at along
  exact ⟨known, fromWindow, by decide +kernel, _, accepted, along⟩

end Program

end Keystroke
