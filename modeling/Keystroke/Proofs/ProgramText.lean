import Keystroke.Proofs.ReadBounds

/-!
# Program texts

The text of a program is a row of complete instructions, none of them an end, and then one end. Every
edit at the address of a line cuts this row between two instructions, so the result is such a row again.
-/

namespace Keystroke

namespace Program

/-- A complete instruction other than an end, of those that are permitted. -/
structure IsLine (permitted : Codec.Decoded → Prop) (chunk : List UInt8) : Prop where
  complete : Codec.IsComplete chunk
  noEnd : (Codec.decode chunk 0).instruction.isEnd = false
  isPermitted : permitted (Codec.decode chunk 0)

/-- A text that is these lines and a closing end, with an argument or without one. -/
structure HasEnd (permitted : Codec.Decoded → Prop) (text : List UInt8)
    (chunks : List (List UInt8)) (closing : List UInt8) : Prop where
  isLine : ∀ chunk ∈ chunks, IsLine permitted chunk
  complete : Codec.IsComplete closing
  isEnd : (Codec.decode closing 0).instruction.isEnd = true
  text_eq : text = chunks.flatten ++ closing

/-- A text that is these lines and a closing end without an argument. -/
structure HasLines (permitted : Codec.Decoded → Prop) (text : List UInt8)
    (chunks : List (List UInt8)) : Prop where
  isLine : ∀ chunk ∈ chunks, IsLine permitted chunk
  text_eq : text = chunks.flatten ++ endBytes

variable {permitted : Codec.Decoded → Prop}

theorem IsLine.of_sameButCache {chunk other : List UInt8} (isLine : IsLine permitted chunk)
    (same : Codec.SameButCache chunk other) : IsLine permitted other := by
  refine ⟨same.complete, ?_, ?_⟩
  · rw [same.decode_eq]
    exact isLine.noEnd
  · rw [same.decode_eq]
    exact isLine.isPermitted

/-! ## The closing end -/

theorem isComplete_endBytes : Codec.IsComplete endBytes := by
  decide +kernel

theorem decode_endBytes : Codec.decode endBytes 0 = ⟨.plain .endOfProgram, 2, none⟩ := by
  decide +kernel

theorem encode_end : Codec.encode (.plain .endOfProgram) = .ok endBytes := by
  rfl

theorem hasLines_empty : HasLines permitted Program.empty.text [] :=
  ⟨by simp, rfl⟩

/-! ## Lines that are placed -/

theorem mem_placed {line : Nat × Codec.Decoded} {address : Nat} {chunks : List (List UInt8)} :
    line ∈ placed address chunks ↔ ∃ front chunk back, chunks = front ++ chunk :: back ∧
      line = (address + front.flatten.length,
        (Codec.decode chunk 0).movedBy (address + front.flatten.length)) := by
  induction chunks generalizing address with
  | nil => simp [placed]
  | cons chunk chunks ih =>
      rw [placed, List.mem_cons, ih]
      constructor
      · rintro (rfl | ⟨front, later, back, rfl, rfl⟩)
        · exact ⟨[], chunk, chunks, rfl, rfl⟩
        · exact ⟨chunk :: front, later, back, rfl, by simp [Nat.add_assoc]⟩
      · rintro ⟨front, later, back, split, rfl⟩
        cases front with
        | nil =>
            obtain ⟨rfl, rfl⟩ := List.cons.inj split
            exact .inl rfl
        | cons first front =>
            obtain ⟨rfl, rfl⟩ := List.cons.inj split
            exact .inr ⟨front, later, back, rfl, by simp [Nat.add_assoc]⟩

theorem le_address_of_mem_placed {line : Nat × Codec.Decoded} {address : Nat}
    {chunks : List (List UInt8)} (member : line ∈ placed address chunks) : address ≤ line.1 := by
  obtain ⟨front, chunk, back, -, rfl⟩ := mem_placed.mp member
  exact Nat.le_add_right address _

theorem address_lt_of_mem_placed {line : Nat × Codec.Decoded} {address : Nat}
    {chunks : List (List UInt8)} (complete : ∀ chunk ∈ chunks, Codec.IsComplete chunk)
    (member : line ∈ placed address chunks) : line.1 < address + chunks.flatten.length := by
  obtain ⟨front, chunk, back, rfl, rfl⟩ := mem_placed.mp member
  have positive := (complete chunk (by simp)).length_pos
  simp
  omega

theorem decode_of_mem_linesFrom {text : List UInt8} {address : Nat} {line : Nat × Codec.Decoded}
    (member : line ∈ linesFrom text address) : line.2 = Codec.decode text line.1 := by
  fun_induction linesFrom text address with
  | case1 address within ih =>
      rcases List.mem_cons.mp member with first | later
      · rw [first]
      · exact ih later
  | case2 address outside => cases member

/-- Lines stand one behind the other. -/
theorem pairwise_linesFrom (text : List UInt8) (address : Nat) :
    (linesFrom text address).Pairwise (fun line later =>
        line.1 + line.2.length ≤ later.1) ∧
      ∀ line ∈ linesFrom text address,
        address ≤ line.1 ∧ line.1 < text.length ∧ 0 < line.2.length := by
  fun_induction linesFrom text address with
  | case1 address within ih =>
      have positive := length_pos text address
      constructor
      · exact List.pairwise_cons.mpr ⟨fun line member => (ih.2 line member).1, ih.1⟩
      · intro line member
        rcases List.mem_cons.mp member with rfl | later
        · exact ⟨Nat.le_refl _, within, positive⟩
        · have bound := ih.2 line later
          exact ⟨by omega, bound.2⟩
  | case2 address outside => simp

/-! ## Lines and a closing end -/

namespace HasEnd

variable {program : Program} {text closing chunk : List UInt8}
  {chunks front behind : List (List UInt8)}

theorem isComplete (hasEnd : HasEnd permitted text chunks closing) :
    ∀ chunk ∈ chunks ++ [closing], Codec.IsComplete chunk := by
  intro chunk member
  rcases List.mem_append.mp member with line | last
  · exact (hasEnd.isLine chunk line).complete
  · rw [List.mem_singleton.mp last]
    exact hasEnd.complete

theorem lines_eq (hasEnd : HasEnd permitted program.text chunks closing) :
    program.lines = placed 0 (chunks ++ [closing]) := by
  rw [lines, hasEnd.text_eq, ← List.flatten_concat]
  exact linesFrom_flatten hasEnd.isComplete []

/-- The closing end is the last line. -/
theorem lines_eq_append_end (hasEnd : HasEnd permitted program.text chunks closing) :
    program.lines = placed 0 chunks ++
      [(chunks.flatten.length, (Codec.decode closing 0).movedBy chunks.flatten.length)] := by
  rw [hasEnd.lines_eq, placed_append, Nat.zero_add]
  rfl

/-- The closing end is the only one. -/
theorem filter_isEnd (hasEnd : HasEnd permitted program.text chunks closing) :
    program.lines.filter (fun line => line.2.instruction.isEnd) =
      [(chunks.flatten.length, (Codec.decode closing 0).movedBy chunks.flatten.length)] := by
  have noEnd : (placed 0 chunks).filter (fun line => line.2.instruction.isEnd) = [] := by
    rw [List.filter_eq_nil_iff]
    intro line member
    obtain ⟨front, chunk, back, rfl, rfl⟩ := mem_placed.mp member
    rw [Codec.Decoded.movedBy_instruction, (hasEnd.isLine chunk (by simp)).noEnd]
    exact Bool.false_ne_true
  rw [hasEnd.lines_eq_append_end, List.filter_append, noEnd, List.nil_append, List.filter_singleton,
    Codec.Decoded.movedBy_instruction, hasEnd.isEnd]
  rfl

/-- The address of a line cuts the lines in two; at the end, all of them are in front. -/
theorem exists_cut (hasEnd : HasEnd permitted program.text chunks closing)
    {line : Nat × Codec.Decoded} (member : line ∈ program.lines) :
    ∃ front behind, chunks = front ++ behind ∧ line.1 = front.flatten.length := by
  rw [hasEnd.lines_eq_append_end, List.mem_append, List.mem_singleton, mem_placed] at member
  rcases member with ⟨front, chunk, back, rfl, rfl⟩ | rfl
  · exact ⟨front, chunk :: back, rfl, Nat.zero_add _⟩
  · exact ⟨chunks, [], (List.append_nil chunks).symm, rfl⟩

theorem isLine_front (hasEnd : HasEnd permitted text (front ++ behind) closing) :
    ∀ chunk ∈ front, IsLine permitted chunk :=
  fun chunk member => hasEnd.isLine chunk (List.mem_append_left behind member)

theorem isLine_behind (hasEnd : HasEnd permitted text (front ++ behind) closing) :
    ∀ chunk ∈ behind, IsLine permitted chunk :=
  fun chunk member => hasEnd.isLine chunk (List.mem_append_right front member)

theorem take_eq (hasEnd : HasEnd permitted text (front ++ behind) closing) :
    text.take front.flatten.length = front.flatten := by
  rw [hasEnd.text_eq, List.flatten_append, List.append_assoc, List.take_left]

theorem drop_eq (hasEnd : HasEnd permitted text (front ++ behind) closing) :
    text.drop front.flatten.length = behind.flatten ++ closing := by
  rw [hasEnd.text_eq, List.flatten_append, List.append_assoc, List.drop_left]

theorem decode_eq (hasEnd : HasEnd permitted program.text (front ++ chunk :: behind) closing) :
    program.decode front.flatten.length =
      (Codec.decode chunk 0).movedBy front.flatten.length := by
  have read := (hasEnd.isLine chunk (by simp)).complete.decode_append front.flatten
    (behind.flatten ++ closing)
  rw [Program.decode, hasEnd.text_eq]
  simpa using read

theorem decode_end (hasEnd : HasEnd permitted program.text chunks closing) :
    program.decode chunks.flatten.length =
      (Codec.decode closing 0).movedBy chunks.flatten.length := by
  have read := hasEnd.complete.decode_append chunks.flatten []
  rw [List.append_nil] at read
  rw [Program.decode, hasEnd.text_eq, read]

theorem read_cut (hasEnd : HasEnd permitted program.text (front ++ behind) closing) :
    program.read front.flatten.length = .ok (program.decode front.flatten.length) := by
  have isRead : ∃ decoded, Codec.decode? program.text front.flatten.length = some decoded := by
    rw [hasEnd.text_eq]
    cases behind with
    | nil =>
        have found := hasEnd.complete.decode?_append front.flatten []
        rw [List.append_nil] at found
        rw [List.append_nil]
        exact ⟨_, found⟩
    | cons chunk behind =>
        have complete := (hasEnd.isLine chunk (by simp)).complete
        have found := complete.decode?_append front.flatten (behind.flatten ++ closing)
        rw [List.flatten_append, List.flatten_cons, List.append_assoc, List.append_assoc, ← List.append_assoc]
        exact ⟨_, found⟩
  obtain ⟨decoded, found⟩ := isRead
  rw [read, found, decode, Codec.decode_of_decode? found]

theorem read_end (hasEnd : HasEnd permitted program.text chunks closing) :
    program.read chunks.flatten.length = .ok (program.decode chunks.flatten.length) := by
  have cut : HasEnd permitted program.text (chunks ++ []) closing := by rwa [List.append_nil]
  exact cut.read_cut

/-- Every line can be read. -/
theorem read_line (hasEnd : HasEnd permitted program.text chunks closing)
    {line : Nat × Codec.Decoded} (isLine : line ∈ program.lines) : program.read line.1 = .ok line.2 := by
  obtain ⟨front, behind, rfl, address⟩ := hasEnd.exists_cut isLine
  rw [decode_of_mem_linesFrom isLine, address]
  exact hasEnd.read_cut

theorem insertBytes (hasEnd : HasEnd permitted program.text (front ++ behind) closing)
    (isLine : IsLine permitted chunk) :
    HasEnd permitted (program.insertBytes front.flatten.length chunk).text
      (front ++ chunk :: behind) closing where
  isLine other member := by
    rcases List.mem_append.mp member with inFront | inserted | later
    · exact hasEnd.isLine_front other inFront
    · exact isLine
    · exact hasEnd.isLine_behind other (by assumption)
  complete := hasEnd.complete
  isEnd := hasEnd.isEnd
  text_eq := by
    rw [Program.insertBytes, hasEnd.take_eq, hasEnd.drop_eq]
    simp

theorem removeBytes (hasEnd : HasEnd permitted program.text (front ++ chunk :: behind) closing) :
    HasEnd permitted (program.removeBytes front.flatten.length chunk.length).text (front ++ behind)
      closing where
  isLine other member := by
    rcases List.mem_append.mp member with inFront | later
    · exact hasEnd.isLine_front other inFront
    · exact hasEnd.isLine_behind other (List.mem_cons_of_mem chunk later)
  complete := hasEnd.complete
  isEnd := hasEnd.isEnd
  text_eq := by
    rw [Program.removeBytes, hasEnd.take_eq, ← List.drop_drop, hasEnd.drop_eq]
    simp

/-- The lines in front of a cut, in front of the lines and the end of another text. -/
theorem take_append {next nextClosing : List UInt8} {later : List (List UInt8)}
    (hasEnd : HasEnd permitted text (front ++ behind) closing)
    (hasNext : HasEnd permitted next later nextClosing) :
    HasEnd permitted (text.take front.flatten.length ++ next) (front ++ later) nextClosing where
  isLine other member := by
    rcases List.mem_append.mp member with inFront | isLater
    · exact hasEnd.isLine_front other inFront
    · exact hasNext.isLine other isLater
  complete := hasNext.complete
  isEnd := hasNext.isEnd
  text_eq := by
    rw [hasEnd.take_eq, hasNext.text_eq, List.flatten_append, List.append_assoc]

/-- The lines behind a cut have the end. -/
theorem drop (hasEnd : HasEnd permitted text (front ++ behind) closing) :
    HasEnd permitted (text.drop front.flatten.length) behind closing :=
  ⟨hasEnd.isLine_behind, hasEnd.complete, hasEnd.isEnd, hasEnd.drop_eq⟩

/-- An end alone. -/
theorem of_closing (complete : Codec.IsComplete closing)
    (isEnd : (Codec.decode closing 0).instruction.isEnd = true) :
    HasEnd permitted closing [] closing :=
  ⟨by simp, complete, isEnd, rfl⟩

end HasEnd

/-! ## The lines of a program -/

theorem isEnd_endBytes : (Codec.decode endBytes 0).instruction.isEnd = true := by
  rw [decode_endBytes]
  rfl

namespace HasLines

variable {program : Program} {chunks front behind : List (List UInt8)} {text : List UInt8}

theorem hasEnd (hasLines : HasLines permitted text chunks) : HasEnd permitted text chunks endBytes :=
  ⟨hasLines.isLine, isComplete_endBytes, isEnd_endBytes, hasLines.text_eq⟩

theorem of_hasEnd (hasEnd : HasEnd permitted text chunks endBytes) : HasLines permitted text chunks :=
  ⟨hasEnd.isLine, hasEnd.text_eq⟩

theorem complete (hasLines : HasLines permitted program.text chunks) :
    ∀ chunk ∈ chunks ++ [endBytes], Codec.IsComplete chunk :=
  hasLines.hasEnd.isComplete

theorem text_eq_flatten (hasLines : HasLines permitted program.text chunks) :
    program.text = (chunks ++ [endBytes]).flatten := by
  rw [hasLines.text_eq, List.flatten_concat]

theorem lines_eq (hasLines : HasLines permitted program.text chunks) :
    program.lines = placed 0 (chunks ++ [endBytes]) :=
  hasLines.hasEnd.lines_eq

theorem size_eq (hasLines : HasLines permitted program.text chunks) :
    program.size = chunks.flatten.length + 2 := by
  rw [size, hasLines.text_eq, List.length_append]
  rfl

theorem endAddress_eq (hasLines : HasLines permitted program.text chunks) :
    program.endAddress = chunks.flatten.length := by
  rw [endAddress, hasLines.size_eq, Nat.add_sub_cancel]

/-- The closing end is a line. -/
theorem exists_end (hasLines : HasLines permitted program.text chunks) :
    ∃ line ∈ program.lines, line.1 = program.endAddress := by
  rw [hasLines.hasEnd.lines_eq_append_end, hasLines.endAddress_eq]
  exact ⟨_, List.mem_concat_self, rfl⟩

/-- The only end is at the last two bytes. -/
theorem filter_isEnd (hasLines : HasLines permitted program.text chunks) :
    program.lines.filter (fun line => line.2.instruction.isEnd) =
      [(program.endAddress, ⟨.plain .endOfProgram, 2, none⟩)] := by
  rw [hasLines.hasEnd.filter_isEnd, hasLines.endAddress_eq, decode_endBytes]
  rfl

/-- The address of a line cuts the lines in two; at the end, all of them are in front. -/
theorem exists_cut (hasLines : HasLines permitted program.text chunks) {line : Nat × Codec.Decoded}
    (member : line ∈ program.lines) :
    ∃ front behind, chunks = front ++ behind ∧ line.1 = front.flatten.length :=
  hasLines.hasEnd.exists_cut member

/-- The lines in front of a cut, and those behind it. -/
theorem lines_append (hasLines : HasLines permitted program.text (front ++ behind)) :
    program.lines = placed 0 front ++ placed front.flatten.length (behind ++ [endBytes]) := by
  rw [hasLines.lines_eq, List.append_assoc, placed_append, Nat.zero_add]

theorem isLine_front (hasLines : HasLines permitted program.text (front ++ behind)) :
    ∀ chunk ∈ front, IsLine permitted chunk :=
  hasLines.hasEnd.isLine_front

theorem isLine_behind (hasLines : HasLines permitted program.text (front ++ behind)) :
    ∀ chunk ∈ behind, IsLine permitted chunk :=
  hasLines.hasEnd.isLine_behind

theorem decode_eq {chunk : List UInt8}
    (hasLines : HasLines permitted program.text (front ++ chunk :: behind)) :
    program.decode front.flatten.length =
      (Codec.decode chunk 0).movedBy front.flatten.length :=
  hasLines.hasEnd.decode_eq

theorem decode_end (hasLines : HasLines permitted program.text chunks) :
    program.decode chunks.flatten.length = ⟨.plain .endOfProgram, 2, none⟩ := by
  rw [hasLines.hasEnd.decode_end, decode_endBytes]
  rfl

/-! ## Edits -/

theorem insertBytes {bytes : List UInt8}
    (hasLines : HasLines permitted program.text (front ++ behind))
    (isLine : IsLine permitted bytes) :
    HasLines permitted (program.insertBytes front.flatten.length bytes).text
      (front ++ bytes :: behind) :=
  .of_hasEnd (hasLines.hasEnd.insertBytes isLine)

theorem removeBytes {chunk : List UInt8}
    (hasLines : HasLines permitted program.text (front ++ chunk :: behind)) :
    HasLines permitted (program.removeBytes front.flatten.length chunk.length).text
      (front ++ behind) :=
  .of_hasEnd hasLines.hasEnd.removeBytes

theorem writeCache {chunk : List UInt8} {place : Nat}
    (hasLines : HasLines permitted program.text (front ++ chunk :: behind))
    (cache : (Codec.decode chunk 0).cache = some place) (target : Option Nat) :
    HasLines permitted (Codec.writeCache program.text (front.flatten.length + place) target)
      (front ++ Codec.writeCache chunk place target :: behind) := by
  have isLine := hasLines.isLine chunk (by simp)
  constructor
  · intro other member
    rcases List.mem_append.mp member with inFront | written | later
    · exact hasLines.isLine_front other inFront
    · exact isLine.of_sameButCache (isLine.complete.writeCache_sameButCache cache target)
    · exact hasLines.isLine_behind other (List.mem_cons_of_mem chunk (by assumption))
  · have written := Codec.writeCache_append front.flatten chunk (behind.flatten ++ endBytes) target
      (Nat.le_of_eq (isLine.complete.cache_at_end cache).2)
    rw [hasLines.text_eq]
    simpa using written

theorem readCache {chunk : List UInt8} {place : Nat}
    (hasLines : HasLines permitted program.text (front ++ chunk :: behind))
    (cache : (Codec.decode chunk 0).cache = some place) :
    Codec.readCache program.text (front.flatten.length + place) = Codec.readCache chunk place := by
  have complete := (hasLines.isLine chunk (by simp)).complete
  have read := Codec.readCache_append front.flatten chunk (behind.flatten ++ endBytes)
    (Nat.le_of_eq (complete.cache_at_end cache).2)
  rw [hasLines.text_eq]
  simpa using read

end HasLines

/-! ## Emptied caches -/

/-- The lines of a program after its jump caches were emptied. -/
def clearedLines (program : Program) (chunks : List (List UInt8)) : List (List UInt8) :=
  if program.cachesEmpty then chunks else chunks.map Codec.emptied

theorem clearedLines_append (program : Program) (front behind : List (List UInt8)) :
    program.clearedLines (front ++ behind) =
      program.clearedLines front ++ program.clearedLines behind := by
  unfold clearedLines
  split <;> simp

theorem clearedLines_cons (program : Program) {chunk : List UInt8}
    (complete : Codec.IsComplete chunk)
    (behind : List (List UInt8)) :
    ∃ other, program.clearedLines (chunk :: behind) = other :: program.clearedLines behind ∧
      other.length = chunk.length := by
  unfold clearedLines
  split
  · exact ⟨chunk, rfl, rfl⟩
  · exact ⟨Codec.emptied chunk, rfl, complete.emptied_sameButCache.length_eq complete⟩

theorem sameButCache_clearedLines (program : Program) {chunks : List (List UInt8)}
    (complete : ∀ chunk ∈ chunks, Codec.IsComplete chunk) :
    List.Forall₂ Codec.SameButCache chunks (program.clearedLines chunks) := by
  unfold clearedLines
  split
  · exact List.forall₂_same.mpr fun chunk member => .refl (complete chunk member)
  · rw [List.forall₂_map_right_iff]
    exact List.forall₂_same.mpr fun chunk member => (complete chunk member).emptied_sameButCache

theorem length_flatten_of_sameButCache {chunks others : List (List UInt8)}
    (same : List.Forall₂ Codec.SameButCache chunks others)
    (complete : ∀ chunk ∈ chunks, Codec.IsComplete chunk) :
    others.flatten.length = chunks.flatten.length := by
  induction same with
  | nil => rfl
  | @cons chunk other chunks others first _ ih =>
      rw [List.flatten_cons, List.flatten_cons, List.length_append, List.length_append,
        first.length_eq (complete chunk (by simp)),
        ih (fun chunk member => complete chunk (by simp [member]))]

theorem length_flatten_clearedLines (program : Program) {chunks : List (List UInt8)}
    (complete : ∀ chunk ∈ chunks, Codec.IsComplete chunk) :
    (program.clearedLines chunks).flatten.length = chunks.flatten.length :=
  length_flatten_of_sameButCache (program.sameButCache_clearedLines complete) complete

theorem placed_clearedLines (program : Program) {chunks : List (List UInt8)}
    (complete : ∀ chunk ∈ chunks, Codec.IsComplete chunk) (address : Nat) :
    placed address (program.clearedLines chunks) = placed address chunks :=
  placed_eq_of_sameButCache (program.sameButCache_clearedLines complete) complete address

/-- The closing end after the jump caches were emptied. -/
def clearedEnd (program : Program) (closing : List UInt8) : List UInt8 :=
  if program.cachesEmpty then closing else Codec.emptied closing

theorem sameButCache_clearedEnd (program : Program) {closing : List UInt8}
    (complete : Codec.IsComplete closing) :
    Codec.SameButCache closing (program.clearedEnd closing) := by
  unfold clearedEnd
  split
  · exact .refl complete
  · exact complete.emptied_sameButCache

/-- An end without an argument has no cache. -/
theorem clearedEnd_endBytes (program : Program) : program.clearedEnd endBytes = endBytes := by
  rw [clearedEnd, Codec.emptied, decode_endBytes]
  exact ite_self endBytes

/-- Emptying the caches keeps the lines and the end. -/
theorem HasEnd.emptyCaches {program : Program} {chunks : List (List UInt8)} {closing : List UInt8}
    (hasEnd : HasEnd permitted program.text chunks closing) :
    HasEnd permitted program.emptyCaches.text (program.clearedLines chunks)
      (program.clearedEnd closing) := by
  have same := program.sameButCache_clearedEnd hasEnd.complete
  refine ⟨?_, same.complete, by rw [same.decode_eq, hasEnd.isEnd], ?_⟩
  · unfold clearedLines
    split
    · exact hasEnd.isLine
    · intro chunk member
      obtain ⟨before, isMember, rfl⟩ := List.mem_map.mp member
      have isLine := hasEnd.isLine before isMember
      exact isLine.of_sameButCache isLine.complete.emptied_sameButCache
  · unfold Program.emptyCaches clearedLines clearedEnd
    split
    · exact hasEnd.text_eq
    · rw [hasEnd.text_eq, ← List.flatten_concat, withoutCaches_flatten hasEnd.isComplete]
      simp

/-- Emptying the caches keeps the lines. -/
theorem HasLines.emptyCaches {program : Program} {chunks : List (List UInt8)}
    (hasLines : HasLines permitted program.text chunks) :
    HasLines permitted program.emptyCaches.text (program.clearedLines chunks) := by
  have emptied := hasLines.hasEnd.emptyCaches
  rw [clearedEnd_endBytes] at emptied
  exact .of_hasEnd emptied

/-! ## Texts of unknown origin -/

/-- The check of a text passes over a complete instruction. -/
theorem check_append {chunk : List UInt8} (complete : Codec.IsComplete chunk)
    (before after : List UInt8) :
    check (before ++ chunk ++ after) before.length false =
      check (before ++ chunk ++ after) (before ++ chunk).length
        (Codec.decode chunk 0).instruction.isEnd := by
  have positive := complete.length_pos
  have within : before.length < (before ++ chunk ++ after).length := by
    simp only [List.length_append]
    omega
  have length := complete.length?_append before after
  rw [check, if_pos within, if_neg Bool.false_ne_true]
  simp only [length, if_pos positive, complete.decode_append before after,
    Codec.Decoded.movedBy_instruction, List.length_append]

/-- A text of complete instructions, of which only the last is an end. -/
def EndsOnce (text : List UInt8) : Prop :=
  ∃ (chunks : List (List UInt8)) (closing : List UInt8), text = chunks.flatten ++ closing ∧
    (∀ chunk ∈ chunks, IsLine (fun _ => True) chunk) ∧ Codec.IsComplete closing ∧
    (Codec.decode closing 0).instruction.isEnd = true

theorem check_flatten {chunks : List (List UInt8)} {closing : List UInt8}
    (isLine : ∀ chunk ∈ chunks, IsLine permitted chunk) (complete : Codec.IsComplete closing)
    (isEnd : (Codec.decode closing 0).instruction.isEnd = true) (before : List UInt8) :
    check (before ++ (chunks.flatten ++ closing)) before.length false = .ok () := by
  induction chunks generalizing before with
  | nil =>
      have step := check_append complete before []
      rw [isEnd, List.append_nil] at step
      rw [List.flatten_nil, List.nil_append, step, check, if_neg (Nat.lt_irrefl _)]
      rfl
  | cons chunk chunks ih =>
      have first := isLine chunk List.mem_cons_self
      have rest := ih (fun other member => isLine other (List.mem_cons_of_mem _ member))
        (before ++ chunk)
      have step := check_append first.complete before (chunks.flatten ++ closing)
      rw [first.noEnd, rest, List.append_assoc] at step
      rwa [List.flatten_cons, List.append_assoc]

/-- Where the check of a text goes on, there is a complete instruction. -/
theorem exists_complete_of_check {before text : List UInt8}
    (checked : check (before ++ text) before.length false = .ok ()) :
    ∃ chunk rest, text = chunk ++ rest ∧ Codec.IsComplete chunk := by
  rw [check] at checked
  split at checked
  · rw [if_neg Bool.false_ne_true] at checked
    split at checked
    · cases checked
    · next length known =>
        rw [Codec.length?, List.drop_left] at known
        refine ⟨text.take length, text.drop length, (List.take_append_drop length text).symm, ?_⟩
        have atStart := Codec.lengthAtStart?_take known
        rwa [Codec.IsComplete, Codec.length?, List.drop_zero, List.length_take,
          Nat.min_eq_left (Codec.le_length_of_lengthAtStart? known)]
  · cases checked

theorem endsOnce_of_check {before text : List UInt8}
    (checked : check (before ++ text) before.length false = .ok ()) : EndsOnce text := by
  induction isSize : text.length using Nat.strong_induction_on generalizing before text with
  | _ size ih =>
      obtain ⟨chunk, rest, rfl, complete⟩ := exists_complete_of_check checked
      have step := check_append complete before rest
      rw [List.append_assoc, checked] at step
      cases isEnd : (Codec.decode chunk 0).instruction.isEnd with
      | true =>
          -- Behind an end the check accepts nothing more.
          have nothing : rest = [] := by
            rw [isEnd, check] at step
            split at step
            · cases step
            · next stops =>
                refine List.eq_nil_of_length_eq_zero ?_
                simp only [List.length_append] at stops
                omega
          exact ⟨[], chunk, by simp [nothing], by simp, complete, isEnd⟩
      | false =>
          have positive := complete.length_pos
          have shorter : rest.length < size := by
            rw [← isSize, List.length_append]
            omega
          rw [isEnd, ← List.append_assoc] at step
          obtain ⟨chunks, closing, rfl, isLine, completeClosing, isEndClosing⟩ :=
            ih rest.length shorter step.symm rfl
          refine ⟨chunk :: chunks, closing, by simp, ?_, completeClosing, isEndClosing⟩
          rintro other (_ | ⟨_, member⟩)
          · exact ⟨complete, isEnd, trivial⟩
          · exact isLine other member

/-- The check accepts exactly the texts of complete instructions, of which only the last is an end. -/
theorem check_eq_ok_iff {text : List UInt8} : check text 0 false = .ok () ↔ EndsOnce text := by
  constructor
  · intro checked
    exact @endsOnce_of_check [] text checked
  · rintro ⟨chunks, closing, rfl, isLine, complete, isEnd⟩
    exact check_flatten isLine complete isEnd []

/-- Lines and a closing end pass the check. -/
theorem HasLines.check_eq {text : List UInt8} {chunks : List (List UInt8)}
    (hasLines : HasLines permitted text chunks) : check text 0 false = .ok () := by
  rw [hasLines.text_eq]
  exact check_flatten hasLines.isLine isComplete_endBytes isEnd_endBytes []

/-! ## Sound programs -/

/-- A program of complete instructions and one closing end, whose caches are empty where it says so. -/
def IsSound (permitted : Codec.Decoded → Prop) (program : Program) : Prop :=
  ∃ chunks, HasLines permitted program.text chunks ∧
    (program.cachesEmpty = true → ∀ chunk ∈ chunks, Codec.RemembersNothing chunk)

/-- A program of complete instructions that remember nothing and one closing end. -/
def IsClean (permitted : Codec.Decoded → Prop) (program : Program) : Prop :=
  ∃ chunks, HasLines permitted program.text chunks ∧ ∀ chunk ∈ chunks, Codec.RemembersNothing chunk

theorem isClean_empty : IsClean permitted .empty :=
  ⟨[], hasLines_empty, by simp⟩

theorem IsClean.isSound {program : Program} (clean : IsClean permitted program) :
    IsSound permitted program := by
  obtain ⟨chunks, hasLines, remembersNothing⟩ := clean
  exact ⟨chunks, hasLines, fun _ => remembersNothing⟩

theorem remembersNothing_clearedLines {program : Program} {chunks : List (List UInt8)}
    (complete : ∀ chunk ∈ chunks, Codec.IsComplete chunk)
    (empty : program.cachesEmpty = true → ∀ chunk ∈ chunks, Codec.RemembersNothing chunk) :
    ∀ chunk ∈ program.clearedLines chunks, Codec.RemembersNothing chunk := by
  unfold clearedLines
  split
  · next flag => exact empty flag
  · intro chunk member
    obtain ⟨before, isMember, rfl⟩ := List.mem_map.mp member
    exact (complete before isMember).remembersNothing_emptied

theorem IsSound.isClean_emptyCaches {program : Program} (sound : IsSound permitted program) :
    IsClean permitted program.emptyCaches := by
  obtain ⟨chunks, hasLines, empty⟩ := sound
  exact ⟨program.clearedLines chunks, hasLines.emptyCaches,
    remembersNothing_clearedLines (fun chunk member => (hasLines.isLine chunk member).complete)
      empty⟩

/-! ## Fetching -/

/-- An instruction that can be read is the one that `decode` gives. -/
theorem decode_of_read {program : Program} {address : Nat} {decoded : Codec.Decoded}
    (isRead : program.read address = .ok decoded) : program.decode address = decoded := by
  rw [read] at isRead
  split at isRead
  · next found =>
      cases isRead
      exact Codec.decode_of_decode? found
  · cases isRead

/-- What a cache inside of the text remembers. -/
theorem cachedTarget_eq {program : Program} {place : Nat} (inside : place + Codec.cacheLength ≤ program.size) :
    program.cachedTarget place = .ok (Codec.readCache program.text place) := by
  have within : place + Codec.cacheLength ≤ program.text.length := inside
  rw [cachedTarget, Codec.readCache?, if_pos within]

theorem readCache_of_cachedTarget {program : Program} {place : Nat} {target : Option Nat}
    (known : program.cachedTarget place = .ok target) : Codec.readCache program.text place = target := by
  rw [cachedTarget, Codec.readCache?] at known
  split at known
  · next found =>
      cases known
      split at found
      · exact Option.some.inj found
      · cases found
  · cases known

section

variable {program : Program} {address : Nat} {decoded : Codec.Decoded}
  (isRead : program.read address = .ok decoded)

include isRead

/-- Where there is no jump cache, only the instruction is read. -/
theorem fetch_of_no_cache (noCache : decoded.cache = none) (wantTarget : Bool) :
    program.fetch address wantTarget =
      .ok (⟨decoded.instruction, address + decoded.length, .none⟩, program) := by
  obtain ⟨instruction, length, cache⟩ := decoded
  obtain rfl : cache = none := noCache
  rw [fetch, isRead]
  cases wantTarget <;> rfl

variable {place target : Nat} (cache : decoded.cache = some place)

include cache

/-- What a jump cache remembers is taken. -/
theorem fetch_of_filled (filled : program.cachedTarget place = .ok (some target)) :
    program.fetch address true =
      .ok (⟨decoded.instruction, address + decoded.length, .found target⟩, program) := by
  obtain ⟨instruction, length, inText⟩ := decoded
  obtain rfl : inText = some place := cache
  rw [fetch, isRead]
  change (program.cachedTarget place >>= _) = _
  rw [filled]
  rfl

variable (empty : program.cachedTarget place = .ok none)

include empty

/-- Where a jump cache is empty, the label is looked up and remembered. -/
theorem fetch_of_found
    (found : program.findLabel (some (address + decoded.length)) decoded.instruction.argument =
      .ok (some target)) :
    program.fetch address true =
      .ok (⟨decoded.instruction, address + decoded.length, .found target⟩,
        { program with
          text := Codec.writeCache program.text place (some target)
          cachesEmpty := false }) := by
  obtain ⟨instruction, length, inText⟩ := decoded
  obtain rfl : inText = some place := cache
  rw [fetch, isRead]
  change (program.cachedTarget place >>= _) = _
  rw [empty]
  change (program.findLabel _ _ >>= _) = _
  rw [found]
  rfl

theorem fetch_of_notFound
    (missing : program.findLabel (some (address + decoded.length)) decoded.instruction.argument =
      .ok none) :
    program.fetch address true =
      .ok (⟨decoded.instruction, address + decoded.length, .notFound⟩, program) := by
  obtain ⟨instruction, length, inText⟩ := decoded
  obtain rfl : inText = some place := cache
  rw [fetch, isRead]
  change (program.cachedTarget place >>= _) = _
  rw [empty]
  change (program.findLabel _ _ >>= _) = _
  rw [missing]
  rfl

end

/-- Fetching changes nothing, or a target that was looked up is written into a cache that remembered
none. -/
theorem fetch_eq_or_writes {program : Program} {address : Nat} {wantTarget : Bool}
    {fetched : Fetched × Program} (isFetched : program.fetch address wantTarget = .ok fetched) :
    fetched.2 = program ∨
      ∃ place target, (program.decode address).cache = some place ∧
        Codec.readCache program.text place = none ∧
        program.findLabel (some (address + (program.decode address).length))
          (program.decode address).instruction.argument = .ok (some target) ∧
        fetched.2 =
          { program with
            text := Codec.writeCache program.text place (some target)
            cachesEmpty := false } := by
  cases isRead : program.read address with
  | error error =>
      rw [fetch, isRead] at isFetched
      cases isFetched
  | ok decoded =>
      rw [decode_of_read isRead]
      cases cache : decoded.cache with
      | none =>
          rw [fetch_of_no_cache isRead cache] at isFetched
          cases isFetched
          exact .inl rfl
      | some place =>
          obtain ⟨instruction, length, inText⟩ := decoded
          obtain rfl : inText = some place := cache
          cases wantTarget with
          | false =>
              rw [fetch, isRead] at isFetched
              cases isFetched
              exact .inl rfl
          | true =>
              cases known : program.cachedTarget place with
              | error error =>
                  rw [fetch, isRead] at isFetched
                  change (program.cachedTarget place >>= _) = _ at isFetched
                  rw [known] at isFetched
                  cases isFetched
              | ok target =>
                  cases target with
                  | some target =>
                      rw [fetch_of_filled isRead rfl known] at isFetched
                      cases isFetched
                      exact .inl rfl
                  | none =>
                      cases label : program.findLabel (some (address + length)) instruction.argument with
                      | error error =>
                          rw [fetch, isRead] at isFetched
                          change (program.cachedTarget place >>= _) = _ at isFetched
                          rw [known] at isFetched
                          change (program.findLabel _ _ >>= _) = _ at isFetched
                          rw [label] at isFetched
                          cases isFetched
                      | ok target =>
                          cases target with
                          | none =>
                              rw [fetch_of_notFound isRead rfl known label] at isFetched
                              cases isFetched
                              exact .inl rfl
                          | some target =>
                              rw [fetch_of_found isRead rfl known label] at isFetched
                              cases isFetched
                              exact .inr ⟨place, target, rfl, readCache_of_cachedTarget known, rfl, rfl⟩

/-- Fetching a line changes nothing, or the target of a jump that remembered none is written. -/
theorem fetch_cases {program : Program} {front behind : List (List UInt8)}
    (hasLines : HasLines permitted program.text (front ++ behind)) {wantTarget : Bool}
    {fetched : Fetched × Program}
    (isFetched : program.fetch front.flatten.length wantTarget = .ok fetched) :
    fetched.2 = program ∨
      ∃ chunk later place target, behind = chunk :: later ∧
        (Codec.decode chunk 0).cache = some place ∧
        program.findLabel (some (front.flatten.length + chunk.length))
          (Codec.decode chunk 0).instruction.argument = .ok (some target) ∧
        fetched.2 =
          { program with
            text := Codec.writeCache program.text (front.flatten.length + place) (some target)
            cachesEmpty := false } := by
  rcases fetch_eq_or_writes isFetched with same | ⟨place, target, cache, -, label, written⟩
  · exact .inl same
  · cases behind with
    | nil =>
        rw [List.append_nil] at hasLines
        rw [hasLines.decode_end] at cache
        cases cache
    | cons chunk later =>
        have isLine := hasLines.isLine chunk (by simp)
        rw [hasLines.decode_eq, Codec.Decoded.movedBy_length, isLine.complete.decode_length,
          Codec.Decoded.movedBy_instruction] at label
        rw [hasLines.decode_eq, Codec.Decoded.movedBy_cache, Option.map_eq_some_iff] at cache
        obtain ⟨inChunk, here, rfl⟩ := cache
        exact .inr ⟨chunk, later, inChunk, target, rfl, here, label, written⟩

theorem HasLines.lines_eq_of_sameButCache {program other : Program}
    {chunks others : List (List UInt8)} (hasLines : HasLines permitted program.text chunks)
    (hasOthers : HasLines permitted other.text others)
    (same : List.Forall₂ Codec.SameButCache chunks others) : other.lines = program.lines := by
  rw [hasLines.lines_eq, hasOthers.lines_eq]
  refine placed_eq_of_sameButCache (List.rel_append same ?_) hasLines.complete 0
  exact .cons (.refl isComplete_endBytes) .nil

/-- Lines of which one has another cache. -/
theorem sameButCache_writeCache {front later : List (List UInt8)} {chunk : List UInt8} {place : Nat}
    (complete : ∀ line ∈ front ++ chunk :: later, Codec.IsComplete line)
    (cache : (Codec.decode chunk 0).cache = some place) (target : Option Nat) :
    List.Forall₂ Codec.SameButCache (front ++ chunk :: later)
      (front ++ Codec.writeCache chunk place target :: later) := by
  refine List.rel_append ?_ (.cons ?_ ?_)
  · exact List.forall₂_same.mpr fun line member => .refl (complete line (by simp [member]))
  · exact (complete chunk (by simp)).writeCache_sameButCache cache target
  · exact List.forall₂_same.mpr fun line member => .refl (complete line (by simp [member]))

/-- Fetching a line keeps all lines. -/
theorem lines_fetch {program : Program} {chunks : List (List UInt8)}
    (hasLines : HasLines permitted program.text chunks) {line : Nat × Codec.Decoded}
    (isLine : line ∈ program.lines) {wantTarget : Bool} {fetched : Fetched × Program}
    (isFetched : program.fetch line.1 wantTarget = .ok fetched) : fetched.2.lines = program.lines := by
  obtain ⟨front, behind, rfl, address⟩ := hasLines.exists_cut isLine
  rw [address] at isFetched
  rcases fetch_cases hasLines isFetched with same |
    ⟨chunk, later, place, target, rfl, cache, -, same⟩
  · rw [same]
  · rw [same]
    exact hasLines.lines_eq_of_sameButCache (hasLines.writeCache cache (some target))
      (sameButCache_writeCache (fun line member => (hasLines.isLine line member).complete) cache _)

/-- Fetching a line keeps a program sound. -/
theorem IsSound.fetch {program : Program} (sound : IsSound permitted program)
    {line : Nat × Codec.Decoded}
    (isLine : line ∈ program.lines) {wantTarget : Bool} {fetched : Fetched × Program}
    (isFetched : program.fetch line.1 wantTarget = .ok fetched) : IsSound permitted fetched.2 := by
  obtain ⟨chunks, hasLines, empty⟩ := sound
  obtain ⟨front, behind, rfl, address⟩ := hasLines.exists_cut isLine
  rw [address] at isFetched
  rcases fetch_cases hasLines isFetched with same |
    ⟨chunk, later, place, target, rfl, cache, -, same⟩
  · rw [same]
    exact ⟨_, hasLines, empty⟩
  · rw [same]
    exact ⟨_, hasLines.writeCache cache (some target), by simp⟩

/-! ## The lines after an edit -/

theorem placed_clearedLines_end (program : Program) {chunks : List (List UInt8)}
    (complete : ∀ chunk ∈ chunks, Codec.IsComplete chunk) (address : Nat) :
    placed address (program.clearedLines chunks ++ [endBytes]) =
      placed address (chunks ++ [endBytes]) := by
  rw [placed_append, placed_append, placed_clearedLines program complete,
    length_flatten_clearedLines program complete]

section

variable {program : Program} {front behind : List (List UInt8)} {chunk : List UInt8}

/-- Emptied caches do not move a cut. -/
theorem HasEnd.emptyCaches_cut {closing : List UInt8}
    (hasEnd : HasEnd permitted program.text (front ++ behind) closing) :
    HasEnd permitted program.emptyCaches.text
        (program.clearedLines front ++ program.clearedLines behind) (program.clearedEnd closing) ∧
      (program.clearedLines front).flatten.length = front.flatten.length := by
  have emptied := hasEnd.emptyCaches
  rw [clearedLines_append] at emptied
  exact ⟨emptied, length_flatten_clearedLines program fun chunk member =>
    (hasEnd.isLine_front chunk member).complete⟩

theorem HasEnd.insertBytes_emptyCaches {closing : List UInt8}
    (hasEnd : HasEnd permitted program.text (front ++ behind) closing)
    (isLine : IsLine permitted chunk) :
    HasEnd permitted (program.emptyCaches.insertBytes front.flatten.length chunk).text
      (program.clearedLines front ++ chunk :: program.clearedLines behind)
      (program.clearedEnd closing) := by
  obtain ⟨emptied, sameLength⟩ := hasEnd.emptyCaches_cut
  rw [← sameLength]
  exact emptied.insertBytes isLine

theorem HasEnd.removeBytes_emptyCaches {closing : List UInt8}
    (hasEnd : HasEnd permitted program.text (front ++ chunk :: behind) closing) :
    HasEnd permitted (program.emptyCaches.removeBytes front.flatten.length chunk.length).text
      (program.clearedLines front ++ program.clearedLines behind) (program.clearedEnd closing) := by
  obtain ⟨emptied, sameLength⟩ := hasEnd.emptyCaches_cut
  obtain ⟨other, cleared, sameChunk⟩ :=
    program.clearedLines_cons (hasEnd.isLine chunk (by simp)).complete behind
  rw [cleared] at emptied
  rw [← sameLength, ← sameChunk]
  exact emptied.removeBytes

theorem HasLines.insertBytes_emptyCaches
    (hasLines : HasLines permitted program.text (front ++ behind))
    (isLine : IsLine permitted chunk) :
    HasLines permitted (program.emptyCaches.insertBytes front.flatten.length chunk).text
      (program.clearedLines front ++ chunk :: program.clearedLines behind) := by
  have edited := hasLines.hasEnd.insertBytes_emptyCaches isLine
  rw [clearedEnd_endBytes] at edited
  exact .of_hasEnd edited

theorem HasLines.removeBytes_emptyCaches
    (hasLines : HasLines permitted program.text (front ++ chunk :: behind)) :
    HasLines permitted (program.emptyCaches.removeBytes front.flatten.length chunk.length).text
      (program.clearedLines front ++ program.clearedLines behind) := by
  have edited := hasLines.hasEnd.removeBytes_emptyCaches
  rw [clearedEnd_endBytes] at edited
  exact .of_hasEnd edited

/-- The lines in front of a cut are a program once they have an end. -/
theorem HasLines.take_append_end (hasLines : HasLines permitted program.text (front ++ behind)) :
    HasLines permitted (program.text.take front.flatten.length ++ endBytes) front := by
  have taken := hasLines.hasEnd.take_append
    (.of_closing isComplete_endBytes isEnd_endBytes)
  rw [List.append_nil] at taken
  exact .of_hasEnd taken

/-- The lines behind a cut have the end. -/
theorem HasLines.drop (hasLines : HasLines permitted program.text (front ++ behind)) :
    HasLines permitted (program.text.drop front.flatten.length) behind :=
  .of_hasEnd hasLines.hasEnd.drop

/-- A program whose end is cut off goes on with the lines of another one. -/
theorem HasLines.take_append {next : List UInt8} {later : List (List UInt8)}
    (hasLines : HasLines permitted program.text front) (hasNext : HasLines permitted next later) :
    HasLines permitted (program.text.take front.flatten.length ++ next) (front ++ later) := by
  have whole : HasEnd permitted program.text (front ++ []) endBytes := by
    rw [List.append_nil]
    exact hasLines.hasEnd
  exact .of_hasEnd (whole.take_append hasNext.hasEnd)

/-- An inserted line stands between the lines in front of it and those behind it. -/
theorem HasLines.lines_insertBytes (hasLines : HasLines permitted program.text (front ++ behind))
    (isLine : IsLine permitted chunk) :
    (program.emptyCaches.insertBytes front.flatten.length chunk).lines =
      placed 0 front ++ (front.flatten.length,
          (Codec.decode chunk 0).movedBy front.flatten.length) ::
        placed (front.flatten.length + chunk.length) (behind ++ [endBytes]) := by
  have inFront := fun chunk member => (hasLines.isLine_front chunk member).complete
  have isBehind := fun chunk member => (hasLines.isLine_behind chunk member).complete
  rw [(hasLines.insertBytes_emptyCaches isLine).lines_append, placed_clearedLines program inFront,
    length_flatten_clearedLines program inFront, List.cons_append, placed,
    placed_clearedLines_end program isBehind]

/-- The lines behind a deleted one follow those in front of it. -/
theorem HasLines.lines_removeBytes
    (hasLines : HasLines permitted program.text (front ++ chunk :: behind)) :
    (program.emptyCaches.removeBytes front.flatten.length chunk.length).lines =
      placed 0 front ++ placed front.flatten.length (behind ++ [endBytes]) := by
  have complete := fun chunk member => (hasLines.isLine chunk member).complete
  have inFront := fun line (member : line ∈ front) => complete line (by simp [member])
  have isBehind := fun line (member : line ∈ behind) => complete line (by simp [member])
  rw [hasLines.removeBytes_emptyCaches.lines_append, placed_clearedLines program inFront,
    length_flatten_clearedLines program inFront, placed_clearedLines_end program isBehind]

/-! ## Clean programs after an edit -/

theorem isSound_of_hasLines {text : List UInt8} {chunks : List (List UInt8)}
    (hasLines : HasLines permitted text chunks) (isLocked : Bool) :
    IsSound permitted ⟨text, false, isLocked⟩ :=
  ⟨chunks, hasLines, fun flag => nomatch flag⟩

variable (hasLines : HasLines permitted program.text (front ++ behind))
  (empty : program.cachesEmpty = true → ∀ line ∈ front ++ behind, Codec.RemembersNothing line)

include hasLines empty

theorem remembersNothing_of_cut :
    ∀ line ∈ program.clearedLines front ++ program.clearedLines behind,
      Codec.RemembersNothing line := by
  rw [← clearedLines_append]
  exact remembersNothing_clearedLines (fun line member => (hasLines.isLine line member).complete)
    empty

theorem isClean_insertBytes (isLine : IsLine permitted chunk)
    (nothing : Codec.RemembersNothing chunk) :
    IsClean permitted (program.emptyCaches.insertBytes front.flatten.length chunk) := by
  refine ⟨_, hasLines.insertBytes_emptyCaches isLine, fun line member => ?_⟩
  have others := remembersNothing_of_cut hasLines empty
  rw [List.mem_append, List.mem_cons] at member
  rcases member with inFront | rfl | isBehind
  · exact others line (List.mem_append_left _ inFront)
  · exact nothing
  · exact others line (List.mem_append_right _ isBehind)

/-- Both parts of a program that is cut in two are clean. -/
theorem isClean_split (isLocked : Bool) :
    IsClean permitted { program.emptyCaches with
        text := program.emptyCaches.text.take front.flatten.length ++ endBytes } ∧
      IsClean permitted (⟨program.emptyCaches.text.drop front.flatten.length, false, isLocked⟩ :
        Program).emptyCaches := by
  have emptied := hasLines.emptyCaches
  have sameLength := length_flatten_clearedLines program
    fun line member => (hasLines.isLine_front line member).complete
  have others := remembersNothing_of_cut hasLines empty
  rw [clearedLines_append] at emptied
  rw [← sameLength]
  refine ⟨⟨_, emptied.take_append_end, fun line member => ?_⟩, ?_⟩
  · exact others line (List.mem_append_left _ member)
  · exact (isSound_of_hasLines emptied.drop isLocked).isClean_emptyCaches

end

section

variable {program : Program} {front behind : List (List UInt8)} {chunk : List UInt8}

theorem isClean_removeBytes (hasLines : HasLines permitted program.text (front ++ chunk :: behind))
    (empty : program.cachesEmpty = true →
      ∀ line ∈ front ++ chunk :: behind, Codec.RemembersNothing line) :
    IsClean permitted (program.emptyCaches.removeBytes front.flatten.length chunk.length) := by
  refine ⟨_, hasLines.removeBytes_emptyCaches, fun line member => ?_⟩
  have others := remembersNothing_of_cut hasLines empty
  obtain ⟨other, cleared, -⟩ :=
    program.clearedLines_cons (hasLines.isLine chunk (by simp)).complete behind
  rw [cleared] at others
  rcases List.mem_append.mp member with inFront | isBehind
  · exact others line (List.mem_append_left _ inFront)
  · exact others line (List.mem_append_right _ (List.mem_cons_of_mem _ isBehind))

/-- Two programs that are joined are one whose caches are all empty. -/
theorem isClean_join {next : Program} {later : List (List UInt8)}
    (hasLines : HasLines permitted program.text front)
    (hasNext : HasLines permitted next.text later) :
    IsClean permitted ({ program.emptyCaches with
      text := program.emptyCaches.text.take front.flatten.length ++ next.text
      cachesEmpty := false } : Program).emptyCaches := by
  have sameLength := length_flatten_clearedLines program
    fun line member => (hasLines.isLine line member).complete
  rw [← sameLength]
  exact (isSound_of_hasLines (hasLines.emptyCaches.take_append hasNext) _).isClean_emptyCaches

end

end Program

end Keystroke
