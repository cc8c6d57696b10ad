import Keystroke.Proofs.LibraryEdits

/-!
# Jump targets

A jump inside a program goes to the first label of its name behind it, or else to the first one from the
start. Every edit empties the caches of the programs it changes, so a cache that is filled always
remembers this label.
-/

namespace Keystroke

namespace Argument

theorem agrees_eq_beq {argument other : Argument} (plain : other.isLiteral = false) :
    argument.agrees other = (argument == other) := by
  cases other with
  | literal value text => cases plain
  | none | direct operand | indirect operand | localLabel letter | longText bytes =>
      cases argument <;> rfl

end Argument

namespace Program

variable {permitted : Codec.Decoded → Prop}

/-! ## The label that a jump means -/

/-- Whether a line is the label that an argument means. -/
def isLabelLine (argument : Argument) (line : Nat × Codec.Decoded) : Bool :=
  line.2.instruction == ⟨.label, argument⟩

/-- The lines behind an address and then, once more from the start, those up to it. -/
def linesAround (program : Program) (address : Nat) : List (Nat × Codec.Decoded) :=
  program.lines.filter (fun line => address < line.1) ++
    program.lines.filter fun line => line.1 ≤ address

/-- Where the first label that an argument means is, behind an address or else from the start. -/
def labelAround? (program : Program) (address : Nat) (argument : Argument) : Option Nat :=
  ((program.linesAround address).find? (isLabelLine argument)).map (·.1)

theorem mem_linesAround {program : Program} {address : Nat} {line : Nat × Codec.Decoded} :
    line ∈ program.linesAround address ↔ line ∈ program.lines := by
  simp only [linesAround, List.mem_append, List.mem_filter, decide_eq_true_eq]
  constructor
  · rintro (⟨member, -⟩ | ⟨member, -⟩) <;> exact member
  · intro member
    rcases Nat.lt_or_ge address line.1 with behind | upTo
    · exact .inl ⟨member, behind⟩
    · exact .inr ⟨member, upTo⟩

theorem labelAround?_eq_none {program : Program} {address : Nat} {argument : Argument} :
    program.labelAround? address argument = none ↔
      ∀ line ∈ program.lines, line.2.instruction ≠ ⟨.label, argument⟩ := by
  rw [labelAround?, Option.map_eq_none_iff, List.find?_eq_none]
  simp only [mem_linesAround, isLabelLine, beq_iff_eq, ne_eq]

theorem mem_lines_of_labelAround? {program : Program} {address target : Nat} {argument : Argument}
    (found : program.labelAround? address argument = some target) :
    ∃ line ∈ program.lines, line.1 = target := by
  obtain ⟨line, isFirst, rfl⟩ := Option.map_eq_some_iff.mp found
  exact ⟨line, mem_linesAround.mp (List.mem_of_find?_eq_some isFirst), rfl⟩

/-- Only the lines decide where a jump goes. -/
theorem labelAround?_congr {program other : Program} (lines : other.lines = program.lines)
    (address : Nat) (argument : Argument) :
    other.labelAround? address argument = program.labelAround? address argument := by
  rw [labelAround?, labelAround?, linesAround, linesAround, lines]

/-! ## The search -/

section

variable {program : Program} {argument : Argument} {front middle behind : List (List UInt8)}
  {chunk : List UInt8}

theorem isLabelAt_eq (hasLines : HasLines permitted program.text (front ++ chunk :: behind))
    (plain : argument.isLiteral = false) :
    program.isLabelAt argument front.flatten.length = .ok (isLabelLine argument
      (front.flatten.length, (Codec.decode chunk 0).movedBy front.flatten.length)) := by
  rw [isLabelAt, hasLines.hasEnd.read_cut, hasLines.decode_eq]
  refine congrArg Except.ok ?_
  rw [isLabelLine, Codec.Decoded.movedBy_instruction]
  generalize (Codec.decode chunk 0).instruction = instruction
  obtain ⟨opcode, argument'⟩ := instruction
  rw [Argument.agrees_eq_beq plain, Bool.eq_iff_iff]
  simp

theorem next_eq (hasLines : HasLines permitted program.text (front ++ chunk :: behind)) :
    program.next front.flatten.length = front.flatten.length + chunk.length := by
  have known := (hasLines.isLine chunk (by simp)).complete.length?_append front.flatten
    (behind.flatten ++ endBytes)
  have text : program.text = front.flatten ++ chunk ++ (behind.flatten ++ endBytes) := by
    rw [hasLines.text_eq]
    simp
  rw [next, Codec.length, text, known, Option.getD_some]

/-- A search between two cuts finds the first label among the lines between them. -/
theorem labelBetween_eq
    (hasLines : HasLines permitted program.text (front ++ middle ++ behind))
    (plain : argument.isLiteral = false) {fuel : Nat} (enough : middle.length < fuel) :
    program.labelBetween argument (front ++ middle).flatten.length fuel front.flatten.length =
      .ok (((placed front.flatten.length middle).find? (isLabelLine argument)).map (·.1)) := by
  induction middle generalizing front fuel with
  | nil =>
      cases fuel with
      | zero => simp at enough
      | succ fuel => simp [labelBetween, placed]
  | cons chunk middle ih =>
      cases fuel with
      | zero => simp at enough
      | succ fuel =>
          have atChunk :
              HasLines permitted program.text (front ++ chunk :: (middle ++ behind)) := by
            simpa using hasLines
          have further :
              HasLines permitted program.text (front ++ [chunk] ++ middle ++ behind) := by
            simpa using hasLines
          have positive := (atChunk.isLine chunk (by simp)).complete.length_pos
          have inside : front.flatten.length < (front ++ chunk :: middle).flatten.length := by
            rw [List.flatten_append, List.flatten_cons, List.length_append, List.length_append]
            omega
          have rest := ih further (Nat.lt_of_succ_lt_succ enough)
          rw [List.append_assoc, List.singleton_append, List.flatten_concat,
            List.length_append] at rest
          rw [labelBetween, if_pos inside, isLabelAt_eq atChunk plain, next_eq atChunk, rest,
            placed, List.find?_cons]
          cases isLabelLine argument
            (front.flatten.length, (Codec.decode chunk 0).movedBy front.flatten.length) <;> rfl

theorem length_le_length_flatten {chunks : List (List UInt8)}
    (complete : ∀ chunk ∈ chunks, Codec.IsComplete chunk) :
    chunks.length ≤ chunks.flatten.length := by
  induction chunks with
  | nil => simp
  | cons chunk chunks ih =>
      have positive := (complete chunk (by simp)).length_pos
      have rest := ih fun chunk member => complete chunk (by simp [member])
      rw [List.length_cons, List.flatten_cons, List.length_append]
      omega

/-- The lines around a line: first those behind it with the end, then those in front and itself. -/
theorem linesAround_eq (hasLines : HasLines permitted program.text (front ++ chunk :: behind)) :
    program.linesAround front.flatten.length =
      placed (front.flatten.length + chunk.length) (behind ++ [endBytes]) ++
        placed 0 (front ++ [chunk]) := by
  have complete := fun chunk member => (hasLines.isLine chunk member).complete
  have positive := (complete chunk (by simp)).length_pos
  have inFront : ∀ line ∈ placed 0 front, line.1 < front.flatten.length := by
    intro line member
    have bound := address_lt_of_mem_placed
      (fun chunk member => complete chunk (by simp [member])) member
    omega
  have isBehind : ∀ line ∈ placed (front.flatten.length + chunk.length) (behind ++ [endBytes]),
      front.flatten.length < line.1 := by
    intro line member
    have bound := le_address_of_mem_placed member
    omega
  have lines : program.lines = placed 0 (front ++ [chunk]) ++
      placed (front.flatten.length + chunk.length) (behind ++ [endBytes]) := by
    rw [hasLines.lines_append, placed_append 0 front [chunk], List.cons_append, placed,
      Nat.zero_add, placed, placed, List.append_assoc, List.singleton_append]
  have upTo : ∀ line ∈ placed 0 (front ++ [chunk]), line.1 ≤ front.flatten.length := by
    intro line member
    rw [placed_append, Nat.zero_add, placed, placed, List.mem_append, List.mem_singleton] at member
    rcases member with isFront | rfl
    · exact Nat.le_of_lt (inFront line isFront)
    · exact Nat.le_refl _
  rw [linesAround, lines, List.filter_append, List.filter_append]
  rw [List.filter_eq_nil_iff.mpr, List.filter_eq_self.mpr, List.filter_eq_self.mpr,
    List.filter_eq_nil_iff.mpr, List.nil_append, List.append_nil]
  · intro line member
    have bound := isBehind line member
    simp only [decide_eq_true_eq]
    omega
  · intro line member
    simpa using upTo line member
  · intro line member
    simpa using isBehind line member
  · intro line member
    have bound := upTo line member
    simp only [decide_eq_true_eq]
    omega

/-- The search for the target of a jump finds the first label behind it, or else from the start. -/
theorem findLabel_eq (hasLines : HasLines permitted program.text (front ++ chunk :: behind))
    (plain : argument.isLiteral = false) :
    program.findLabel (some (front.flatten.length + chunk.length)) argument =
      .ok (program.labelAround? front.flatten.length argument) := by
  have complete := fun chunk member => (hasLines.isLine chunk member).complete
  have next : front.flatten.length + chunk.length = (front ++ [chunk]).flatten.length := by
    rw [List.flatten_concat, List.length_append]
  have closing : program.endAddress = (front ++ [chunk] ++ behind).flatten.length := by
    rw [hasLines.endAddress_eq, List.append_assoc, List.singleton_append]
  have start : min (front.flatten.length + chunk.length) program.endAddress =
      (front ++ [chunk]).flatten.length := by
    rw [closing, next, Nat.min_eq_left]
    simp
  have size := length_le_length_flatten complete
  rw [← hasLines.endAddress_eq, List.length_append, List.length_cons] at size
  have within : program.endAddress ≤ program.size := Nat.sub_le _ _
  have behindLines : HasLines permitted program.text (front ++ [chunk] ++ behind ++ []) := by
    simpa using hasLines
  have upToLines : HasLines permitted program.text ([] ++ (front ++ [chunk]) ++ behind) := by
    simpa using hasLines
  have first := labelBetween_eq behindLines plain (show behind.length < program.size + 1 by omega)
  have second := labelBetween_eq upToLines plain
    (show (front ++ [chunk]).length < program.size + 1 by
      rw [List.length_append, List.length_singleton]
      omega)
  rw [← closing] at first
  rw [List.nil_append] at second
  have noLabel : isLabelLine argument (front.flatten.length + chunk.length + behind.flatten.length,
      (Codec.decode endBytes 0).movedBy
        (front.flatten.length + chunk.length + behind.flatten.length)) = false := by
    rw [isLabelLine, Codec.Decoded.movedBy_instruction, decode_endBytes]
    rfl
  unfold findLabel
  simp only [Option.getD_some, start, first]
  rw [labelAround?, linesAround_eq hasLines, placed_append (front.flatten.length + chunk.length),
    List.find?_append, List.find?_append, placed, placed, List.find?_cons, noLabel, next]
  cases (placed (front ++ [chunk]).flatten.length behind).find? (isLabelLine argument) with
  | some line => rfl
  | none => exact second

end

/-! ## Caches of different lines -/

/-- A line is the closing end, or one of the instructions in front of it. -/
theorem HasLines.line_cases {program : Program} {chunks : List (List UInt8)}
    (hasLines : HasLines permitted program.text chunks) {line : Nat × Codec.Decoded}
    (member : line ∈ program.lines) :
    line = (program.endAddress, ⟨.plain .endOfProgram, 2, none⟩) ∨
      ∃ front chunk behind, chunks = front ++ chunk :: behind ∧ line = (front.flatten.length,
        (Codec.decode chunk 0).movedBy front.flatten.length) := by
  rw [hasLines.lines_eq, placed_append, List.mem_append, Nat.zero_add] at member
  rcases member with isLine | isEnd
  · obtain ⟨front, chunk, behind, split, rfl⟩ := mem_placed.mp isLine
    rw [Nat.zero_add]
    exact .inr ⟨front, chunk, behind, split, rfl⟩
  · rw [placed, placed, List.mem_singleton, decode_endBytes, ← hasLines.endAddress_eq] at isEnd
    exact .inl isEnd

/-- A cache is at the end of its line. -/
theorem HasLines.cache_at_end {program : Program} {chunks : List (List UInt8)}
    (hasLines : HasLines permitted program.text chunks) {line : Nat × Codec.Decoded}
    (member : line ∈ program.lines) {place : Nat} (cache : line.2.cache = some place) :
    line.1 ≤ place ∧ place + Codec.cacheLength = line.1 + line.2.length ∧
      place + Codec.cacheLength ≤ program.size := by
  rcases hasLines.line_cases member with rfl | ⟨front, chunk, behind, rfl, rfl⟩
  · cases cache
  · have complete := (hasLines.isLine chunk (by simp)).complete
    rw [Codec.Decoded.movedBy_cache, Option.map_eq_some_iff] at cache
    obtain ⟨inChunk, here, rfl⟩ := cache
    have atEnd := (complete.cache_at_end here).2
    have size := hasLines.size_eq
    rw [List.flatten_append, List.flatten_cons, List.length_append, List.length_append] at size
    simp only [Codec.Decoded.movedBy_length, complete.decode_length]
    omega

/-- Lines that are not the same do not overlap. -/
theorem apart_of_ne {program : Program} {line other : Nat × Codec.Decoded}
    (member : line ∈ program.lines) (otherMember : other ∈ program.lines) (ne : line ≠ other) :
    line.1 + line.2.length ≤ other.1 ∨ other.1 + other.2.length ≤ line.1 := by
  have inOrder := (pairwise_linesFrom program.text 0).1
  refine List.Pairwise.forall_of_forall_of_flip (R := fun line other => line ≠ other →
    line.1 + line.2.length ≤ other.1 ∨ other.1 + other.2.length ≤ line.1) ?_ ?_ ?_
    member otherMember ne
  · exact fun line _ ne => (ne rfl).elim
  · exact inOrder.imp fun before _ => .inl before
  · exact inOrder.imp fun before _ => .inr before

end Program

namespace Codec

theorem readCache_congr {bytes other : List UInt8} {place : Nat}
    (same : (other.drop place).take cacheLength = (bytes.drop place).take cacheLength) :
    readCache other place = readCache bytes place := by
  rw [readCache, readCache, same]

/-- Writing a cache leaves all caches apart from it. -/
theorem readCache_writeCache_of_apart {bytes : List UInt8} {place other : Nat}
    (within : place + cacheLength ≤ bytes.length)
    (apart : other + cacheLength ≤ place ∨ place + cacheLength ≤ other) (target : Option Nat) :
    readCache (writeCache bytes place target) other = readCache bytes other := by
  apply readCache_congr
  have size := cacheBytes_length target
  have atPlace : (bytes.take place).length = place := List.length_take_of_le (by omega)
  rw [writeCache_eq, overwrite, size]
  rcases apart with inFront | behind
  · have whole : bytes = bytes.take place ++ bytes.drop place := by rw [List.take_append_drop]
    have short : cacheLength ≤ ((bytes.take place).drop other).length := by
      rw [List.length_drop]
      omega
    conv_rhs => rw [whole]
    rw [List.append_assoc, List.drop_append_of_le_length (by omega),
      List.drop_append_of_le_length (by omega), List.take_append_of_le_length short,
      List.take_append_of_le_length short]
  · have reaches : other = (bytes.take place ++ cacheBytes target).length +
        (other - (place + cacheLength)) := by
      rw [List.length_append, atPlace, size]
      omega
    rw [reaches, List.drop_length_add_append, List.drop_drop, ← reaches]
    congr 2
    omega

end Codec

namespace Program

/-! ## Filled caches -/

/-- Whether every cache that is filled remembers the label that its jump means. -/
def RemembersTargets (program : Program) : Prop :=
  ∀ line ∈ program.lines, ∀ place target, line.2.cache = some place →
    Codec.readCache program.text place = some target →
      program.labelAround? line.1 line.2.instruction.argument = some target

/-- Instructions that have a cache only if they are jumps inside their program. -/
def CacheIsOfJump (decoded : Codec.Decoded) : Prop :=
  decoded.cache.isSome → decoded.instruction.isLocalJump

/-- The caches of a clean program are empty. -/
theorem IsClean.readCache_eq_none {program : Program} (clean : IsClean permitted program)
    {line : Nat × Codec.Decoded} (member : line ∈ program.lines) {place : Nat}
    (cache : line.2.cache = some place) : Codec.readCache program.text place = none := by
  obtain ⟨chunks, hasLines, nothing⟩ := clean
  rcases hasLines.line_cases member with rfl | ⟨front, chunk, behind, rfl, rfl⟩
  · cases cache
  · rw [Codec.Decoded.movedBy_cache, Option.map_eq_some_iff] at cache
    obtain ⟨inChunk, here, rfl⟩ := cache
    rw [hasLines.readCache here]
    exact nothing chunk (by simp) inChunk here

theorem IsClean.remembersTargets {program : Program} (clean : IsClean permitted program) :
    RemembersTargets program := by
  intro line member place target cache filled
  rw [clean.readCache_eq_none member cache] at filled
  cases filled

theorem isLiteral_of_isLocalJump {instruction : Instruction} (jump : instruction.isLocalJump) :
    instruction.argument.isLiteral = false := by
  obtain ⟨opcode, argument⟩ := instruction
  cases argument with
  | literal value text => simp [Instruction.isLocalJump] at jump
  | none | direct operand | indirect operand | localLabel letter | longText bytes => rfl

/-- Fetching a jump remembers the label that the jump means. -/
theorem RemembersTargets.fetch {program : Program} {chunks : List (List UInt8)}
    (remembers : RemembersTargets program)
    (hasLines : HasLines CacheIsOfJump program.text chunks) (small : program.size < 2 ^ 32 - 1)
    {line : Nat × Codec.Decoded} (isLine : line ∈ program.lines) {wantTarget : Bool}
    {fetched : Fetched × Program} (isFetched : program.fetch line.1 wantTarget = .ok fetched) :
    RemembersTargets fetched.2 := by
  have lines := lines_fetch hasLines isLine isFetched
  obtain ⟨front, behind, rfl, address⟩ := hasLines.exists_cut isLine
  rw [address] at isFetched
  rcases fetch_cases hasLines isFetched with same |
    ⟨chunk, later, inChunk, found, rfl, here, label, same⟩
  · rwa [same]
  · have written : (front.flatten.length, (Codec.decode chunk 0).movedBy front.flatten.length) ∈
        program.lines := by
      rw [hasLines.lines_append, List.cons_append, placed]
      simp
    have jump : (Codec.decode chunk 0).instruction.isLocalJump :=
      (hasLines.isLine chunk (by simp)).isPermitted (by rw [here]; rfl)
    rw [findLabel_eq hasLines (isLiteral_of_isLocalJump jump)] at label
    have writtenCache := hasLines.cache_at_end written
      (show _ = some (front.flatten.length + inChunk) by
        rw [Codec.Decoded.movedBy_cache, here]
        rfl)
    intro other member place target cache filled
    rw [labelAround?_congr lines]
    rw [lines] at member
    rw [same] at filled
    by_cases isWritten : other = (front.flatten.length,
        (Codec.decode chunk 0).movedBy front.flatten.length)
    · subst isWritten
      obtain rfl : front.flatten.length + inChunk = place := by
        rw [Codec.Decoded.movedBy_cache, here] at cache
        exact Option.some.inj cache
      have bound : ∀ address ∈ some found, address < 2 ^ 32 - 1 := by
        intro address isFound
        obtain rfl := Option.some.inj isFound
        obtain ⟨line, isLine, rfl⟩ := mem_lines_of_labelAround? (Except.ok.inj label)
        have inside := ((pairwise_linesFrom program.text 0).2 line isLine).2.1
        exact Nat.lt_trans inside small
      rw [Codec.readCache_writeCache writtenCache.2.2 _ bound] at filled
      rw [Codec.Decoded.movedBy_instruction, Except.ok.inj label]
      exact filled
    · have otherCache := hasLines.cache_at_end member cache
      have apart := apart_of_ne member written isWritten
      rw [Codec.readCache_writeCache_of_apart writtenCache.2.2 (by omega)] at filled
      exact remembers other member place target cache filled

/-- Where a jump at an address goes. -/
def jumpTarget (program : Program) (address : Nat) (argument : Argument) : JumpTarget :=
  match program.labelAround? address argument with
  | some target => .found target
  | none => .notFound

/-- A jump with a cache goes where its label is, whatever the cache remembers. -/
theorem fetch_jump {program : Program} {chunks : List (List UInt8)}
    (remembers : RemembersTargets program)
    (hasLines : HasLines CacheIsOfJump program.text chunks) {line : Nat × Codec.Decoded}
    (isLine : line ∈ program.lines) (hasCache : line.2.cache.isSome) :
    ∃ left, program.fetch line.1 true = .ok (⟨line.2.instruction, line.1 + line.2.length,
      program.jumpTarget line.1 line.2.instruction.argument⟩, left) := by
  obtain ⟨place, cache⟩ := Option.isSome_iff_exists.mp hasCache
  have remembered := cachedTarget_eq (hasLines.cache_at_end isLine cache).2.2
  rcases hasLines.line_cases isLine with rfl | ⟨front, chunk, behind, rfl, rfl⟩
  · cases hasCache
  · have chunkLine := hasLines.isLine chunk (by simp)
    have isRead : program.read front.flatten.length =
        .ok ((Codec.decode chunk 0).movedBy front.flatten.length) := by
      rw [hasLines.hasEnd.read_cut, hasLines.decode_eq]
    rw [Codec.Decoded.movedBy_cache, Option.isSome_map] at hasCache
    have jump : (Codec.decode chunk 0).instruction.isLocalJump := chunkLine.isPermitted hasCache
    have label := findLabel_eq hasLines (isLiteral_of_isLocalJump jump)
    rw [← chunkLine.complete.decode_length, ← Codec.Decoded.movedBy_length (Codec.decode chunk 0)
      front.flatten.length, ← Codec.Decoded.movedBy_instruction (Codec.decode chunk 0)
      front.flatten.length] at label
    cases filled : Codec.readCache program.text place with
    | some target =>
        rw [filled] at remembered
        rw [fetch_of_filled isRead cache remembered, jumpTarget,
          remembers _ isLine place target cache filled]
        exact ⟨_, rfl⟩
    | none =>
        rw [filled] at remembered
        rw [jumpTarget]
        cases found : program.labelAround? front.flatten.length
            ((Codec.decode chunk 0).movedBy front.flatten.length).instruction.argument with
        | some target =>
            rw [found] at label
            exact ⟨_, fetch_of_found isRead cache remembered label⟩
        | none =>
            rw [found] at label
            exact ⟨_, fetch_of_notFound isRead cache remembered label⟩

/-- The program with every cache empty. -/
def forgetful (program : Program) : Program :=
  ({ program with cachesEmpty := false } : Program).emptyCaches

theorem lines_forgetful {program : Program} {chunks : List (List UInt8)}
    (hasLines : HasLines permitted program.text chunks) :
    program.forgetful.lines = program.lines := by
  have filled : HasLines permitted ({ program with cachesEmpty := false } : Program).text chunks :=
    hasLines
  exact hasLines.lines_eq_of_sameButCache filled.emptyCaches
    (sameButCache_clearedLines _ fun chunk member => (hasLines.isLine chunk member).complete)

theorem isClean_forgetful {program : Program} {chunks : List (List UInt8)}
    (hasLines : HasLines permitted program.text chunks) : program.forgetful.IsClean permitted := by
  have sound : IsSound permitted { program with cachesEmpty := false } :=
    isSound_of_hasLines hasLines program.isLocked
  exact sound.isClean_emptyCaches

theorem IsSound.isClean {program : Program} (sound : IsSound permitted program)
    (flag : program.cachesEmpty = true) : IsClean permitted program := by
  obtain ⟨chunks, hasLines, empty⟩ := sound
  exact ⟨chunks, hasLines, empty flag⟩

end Program

namespace Library

/-! ## Jumps after any edits -/

/-- Edits at lines that leave every program small enough for its jump caches. -/
def KeepsSmall (library : Library) (edit : Edit) : Prop :=
  library.Admits edit ∧ ∀ program ∈ (library.apply edit).programs, program.size < 2 ^ 32 - 1

/-- Edits at lines that put in no jump with a negative number in the place of a label. -/
def KeepsForward (library : Library) : Edit → Prop
  | .insert program address instruction =>
    library.Admits (.insert program address instruction) ∧ instruction.isNegativeJump = false
  | edit => library.Admits edit

/-- An instruction that is put in has a cache if it is a jump and no negative one. -/
theorem isSome_cache_of_encode {instruction : Instruction} {bytes : List UInt8}
    (encoded : Codec.encode instruction = .ok bytes) :
    (Codec.decode bytes 0).cache.isSome =
      ((Codec.decode bytes 0).instruction.isLocalJump && !instruction.isNegativeJump) := by
  obtain ⟨code, textFollows, argument, written, -, -, read⟩ := Codec.decode_encode encoded
  rw [read, ← Codec.cachesTarget_eq_isLocalJump instruction.opcode written]
  cases Codec.cachesTarget instruction.opcode code <;> rfl

theorem keepsTo_cacheIsOfJump (edit : Edit) : edit.KeepsTo Program.CacheIsOfJump := by
  cases edit with
  | insert index address instruction =>
      intro _ bytes encoded hasCache
      rw [isSome_cache_of_encode encoded, Bool.and_eq_true] at hasCache
      exact hasCache.1
  | delete | clear | openNew | setLocked | rebuild | fetch => trivial

theorem keepsTo_hasCache {library : Library} {edit : Edit} (forward : library.KeepsForward edit) :
    library.Admits edit ∧ edit.KeepsTo fun decoded =>
      decoded.instruction.isLocalJump → decoded.cache.isSome := by
  cases edit with
  | insert index address instruction =>
      refine ⟨forward.1, fun _ bytes encoded jump => ?_⟩
      rw [isSome_cache_of_encode encoded, jump, forward.2]
      rfl
  | delete | clear | openNew | setLocked | rebuild | fetch => exact ⟨forward, trivial⟩

/-- Whatever edits lead to a library, its filled caches remember what their jumps mean. -/
theorem Reachable.remembersTargets {library : Library} (reachable : Reachable KeepsSmall library) :
    ∀ program ∈ library.programs, program.size < 2 ^ 32 - 1 ∧ program.RemembersTargets := by
  induction reachable with
  | initial =>
      intro program member
      rw [List.mem_singleton.mp member]
      have clean : Program.empty.IsClean fun _ => True := Program.isClean_empty
      exact ⟨by decide, clean.remembersTargets⟩
  | @edited library edit reachable allowed ih =>
      have consistent : IsConsistent Program.CacheIsOfJump library :=
        reachable.isConsistent fun _ edit allowed => ⟨allowed.1, keepsTo_cacheIsOfJump edit⟩
      have follows := follows_apply consistent allowed.1 (keepsTo_cacheIsOfJump edit)
      intro program member
      refine ⟨allowed.2 program member, ?_⟩
      cases follows.comesFrom program member with
      | @kept old isOld isLocked => exact (ih old isOld).2
      | @fetched old isOld line isLine wantTarget fetched isFetched =>
          obtain ⟨chunks, hasLines, -⟩ := consistent.isSound old isOld
          exact (ih old isOld).2.fetch hasLines (ih old isOld).1 isLine isFetched
      | edited clean => exact clean.remembersTargets

/-- A jump inside a program that was written with a negative number goes nowhere. -/
theorem exists_jump_without_target :
    let library := initial.apply (.insert 0 0 ⟨.goto, .literal (-.ofNat 5) none⟩)
    Reachable KeepsSmall library ∧ ∃ program ∈ library.programs, ∃ line ∈ program.lines,
      line.2.instruction = ⟨.goto, .direct (.number 5)⟩ ∧
        (program.fetch line.1 true).map (·.1.target) = .ok .none := by
  intro library
  have allowed : KeepsSmall initial (.insert 0 0 ⟨.goto, .literal (-.ofNat 5) none⟩) :=
    ⟨by decide +kernel, by decide +kernel⟩
  exact ⟨.edited .initial allowed, by decide +kernel⟩

/-- Whatever edits lead to a library, a jump that has a cache goes to the first label it means, behind it
or else from the start of its program, and nowhere exactly if there is none; filling or emptying caches
changes nothing about that. Every jump has a cache unless one with a negative number was put in: such a jump
is stored without a cache, and a jump without a cache goes nowhere. A program that says so has all its caches
empty. -/
theorem jump_targets_of_edits {library : Library} (reachable : Reachable KeepsSmall library)
    {program : Program} (member : program ∈ library.programs) :
    (∀ line ∈ program.lines, line.2.instruction.isLocalJump → line.2.cache.isSome →
      ∃ fetched, program.fetch line.1 true = .ok fetched ∧
        (∀ address, fetched.1.target = .found address ↔
          program.labelAround? line.1 line.2.instruction.argument = some address) ∧
        (fetched.1.target = .notFound ↔
          ∀ other ∈ program.lines, other.2.instruction ≠ ⟨.label, line.2.instruction.argument⟩) ∧
        (program.forgetful.fetch line.1 true).map (·.1) = .ok fetched.1 ∧
        (fetched.2.fetch line.1 true).map (·.1) = .ok fetched.1) ∧
    (Reachable KeepsForward library →
      ∀ line ∈ program.lines, line.2.instruction.isLocalJump → line.2.cache.isSome) ∧
    (∀ instruction bytes, instruction.isNegativeJump = true → Codec.encode instruction = .ok bytes →
      (Codec.decode bytes 0).cache = none) ∧
    (∀ line ∈ program.lines, line.2.cache = none →
      (program.fetch line.1 true).map (·.1.target) = .ok .none) ∧
    (program.cachesEmpty = true → ∀ line ∈ program.lines, ∀ place, line.2.cache = some place →
      Codec.readCache program.text place = none) := by
  have consistent : IsConsistent Program.CacheIsOfJump library :=
    reachable.isConsistent fun _ edit allowed => ⟨allowed.1, keepsTo_cacheIsOfJump edit⟩
  have sound := consistent.isSound program member
  obtain ⟨small, remembers⟩ := reachable.remembersTargets program member
  have ⟨chunks, hasLines, _⟩ := sound
  refine ⟨fun line isLine _ hasCache => ?_, fun forward line isLine jump => ?_,
    fun instruction bytes negative encoded => ?_, fun line isLine noCache => ?_,
    fun flag line isLine place cache => ?_⟩
  · obtain ⟨left, here⟩ := Program.fetch_jump remembers hasLines isLine hasCache
    have sameTarget : ∀ other : Program, other.lines = program.lines →
        other.jumpTarget line.1 line.2.instruction.argument =
          program.jumpTarget line.1 line.2.instruction.argument := by
      intro other lines
      rw [Program.jumpTarget, Program.jumpTarget, Program.labelAround?_congr lines]
    refine ⟨_, here, fun address => ?_, ?_, ?_, ?_⟩
    · rw [Program.jumpTarget]
      cases program.labelAround? line.1 line.2.instruction.argument <;> simp
    · rw [← Program.labelAround?_eq_none, Program.jumpTarget]
      cases program.labelAround? line.1 line.2.instruction.argument <;> simp
    · have lines := Program.lines_forgetful hasLines
      have clean := Program.isClean_forgetful hasLines
      have remembersNow := clean.remembersTargets
      obtain ⟨others, hasOthers, -⟩ := clean
      have isLineNow : line ∈ program.forgetful.lines := by rwa [lines]
      obtain ⟨leftNow, now⟩ := Program.fetch_jump remembersNow hasOthers isLineNow hasCache
      rw [now, sameTarget program.forgetful lines]
      rfl
    · have lines := Program.lines_fetch hasLines isLine here
      have remembersNow := remembers.fetch hasLines small isLine here
      obtain ⟨others, hasOthers, -⟩ := sound.fetch isLine here
      have isLineNow : line ∈ left.lines := by rwa [lines]
      obtain ⟨leftNow, now⟩ := Program.fetch_jump remembersNow hasOthers isLineNow hasCache
      rw [now, sameTarget left lines]
      rfl
  · have kept := forward.isConsistent fun _ _ allowed => keepsTo_hasCache allowed
    obtain ⟨others, hasOthers, -⟩ := kept.isSound program member
    rcases hasOthers.line_cases isLine with rfl | ⟨front, chunk, behind, rfl, rfl⟩
    · cases jump
    · rw [Codec.Decoded.movedBy_instruction] at jump
      rw [Codec.Decoded.movedBy_cache, Option.isSome_map]
      exact (hasOthers.isLine chunk (by simp)).isPermitted jump
  · have stored := isSome_cache_of_encode encoded
    rwa [negative, Bool.not_true, Bool.and_false, Option.isSome_eq_false_iff, Option.isNone_iff_eq_none] at stored
  · rw [Program.fetch_of_no_cache (hasLines.hasEnd.read_line isLine) noCache]
    rfl
  · exact (sound.isClean flag).readCache_eq_none isLine cache

/-- A jump in front of its label, before and after its target was remembered. -/
theorem jump_to_label_behind :
    let jump : Instruction := ⟨.goto, .direct (.number 1)⟩
    let label : Instruction := ⟨.label, .direct (.number 1)⟩
    let library := ((initial.apply (.insert 0 0 label)).apply (.insert 0 0 jump)).apply
      (.fetch 0 0 true)
    Reachable KeepsSmall library ∧ ∃ program ∈ library.programs,
      program.cachesEmpty = false ∧ (program.fetch 0 true).map (·.1.target) = .ok (.found 7) ∧
        (program.forgetful.fetch 0 true).map (·.1) = (program.fetch 0 true).map (·.1) := by
  intro jump label library
  have first : Reachable KeepsSmall (initial.apply (.insert 0 0 label)) :=
    .edited .initial (show KeepsSmall initial (.insert 0 0 label) from
      ⟨by decide +kernel, by decide +kernel⟩)
  have second : Reachable KeepsSmall ((initial.apply (.insert 0 0 label)).apply
      (.insert 0 0 jump)) :=
    .edited first (show KeepsSmall (initial.apply (.insert 0 0 label)) (.insert 0 0 jump) from
      ⟨by decide +kernel, by decide +kernel⟩)
  have reachable : Reachable KeepsSmall library :=
    .edited second (show KeepsSmall ((initial.apply (.insert 0 0 label)).apply (.insert 0 0 jump))
      (.fetch 0 0 true) from ⟨by decide +kernel, by decide +kernel⟩)
  obtain ⟨program, member, line, isLine, atStart, isJump, cached, target⟩ :
      ∃ program ∈ library.programs, ∃ line ∈ program.lines, line.1 = 0 ∧
        line.2.instruction.isLocalJump ∧ program.cachesEmpty = false ∧ line.2.cache.isSome ∧
          program.labelAround? line.1 line.2.instruction.argument = some 7 := by
    decide +kernel
  obtain ⟨fetched, here, targets, -, same, -⟩ :=
    (jump_targets_of_edits reachable member).1 line isLine isJump target.1
  have leads := (targets 7).mpr target.2
  rw [atStart] at here same
  refine ⟨reachable, program, member, cached, ?_, ?_⟩
  · rw [here, ← leads]
    rfl
  · rw [same, here]
    rfl

end Library

end Keystroke
