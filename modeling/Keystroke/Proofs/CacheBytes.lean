import Keystroke.Proofs.JumpTargets

/-!
# Bytes outside of jump caches

An instruction is read from the bytes in front of its jump cache, wherever it stands and whether or not
it is complete. So writing a cache changes no line of a program and no byte outside of the cache, even in
texts of unknown origin.
-/

namespace Keystroke

namespace Codec

/-! ## Overwriting -/

section

variable {bytes new : List UInt8} {place : Nat} (within : place + new.length ≤ bytes.length)

include within

theorem length_overwrite : (overwrite bytes place new).length = bytes.length := by
  rw [overwrite, List.length_append, List.length_append, List.length_take, List.length_drop]
  omega

/-- Bytes apart from those that are overwritten stay. -/
theorem getElem?_overwrite_of_apart {other : Nat}
    (apart : other < place ∨ place + new.length ≤ other) :
    (overwrite bytes place new)[other]? = bytes[other]? := by
  have front : (bytes.take place).length = place := List.length_take_of_le (by omega)
  rw [overwrite, List.append_assoc]
  rcases apart with inFront | behind
  · rw [List.getElem?_append_left (by omega), List.getElem?_take_of_lt inFront]
  · rw [List.getElem?_append_right (by omega), List.getElem?_append_right (by omega), front,
      List.getElem?_drop]
    congr 1
    omega

end

/-- Bytes that already stand at a place may be written there. -/
theorem overwrite_eq_self {bytes new : List UInt8} {place : Nat}
    (same : (bytes.drop place).take new.length = new) : overwrite bytes place new = bytes := by
  have rest : new ++ bytes.drop (place + new.length) = bytes.drop place := by
    conv_lhs => rw [← List.drop_drop]
    have split := List.take_append_drop new.length (bytes.drop place)
    rwa [same] at split
  rw [overwrite, List.append_assoc, rest, List.take_append_drop]

/-! ## What an instruction is read from -/

/-- Where the bytes end that say what an instruction is; its jump cache is behind them. -/
def Decoded.contentEnd (decoded : Decoded) (address : Nat) : Nat :=
  decoded.cache.getD (address + decoded.length)

/-- The cache of an instruction is its last bytes. -/
theorem decode_cache {bytes : List UInt8} {address place : Nat}
    (cache : (decode bytes address).cache = some place) :
    address + 2 ≤ place ∧ place + cacheLength = address + (decode bytes address).length := by
  simp only [decode] at cache ⊢
  split at cache
  · next caches =>
      obtain rfl := Option.some.inj cache
      rw [if_pos caches]
      simp only
      omega
  · cases cache

theorem contentEnd_le (bytes : List UInt8) (address : Nat) :
    (decode bytes address).contentEnd address ≤ address + (decode bytes address).length := by
  rw [Decoded.contentEnd]
  cases cache : (decode bytes address).cache with
  | none => exact Nat.le_refl _
  | some place =>
      have atEnd := decode_cache cache
      rw [Option.getD_some]
      omega

theorem headD_eq_of_take {bytes other : List UInt8} {count : Nat} (positive : 0 < count)
    (same : other.take count = bytes.take count) : other.headD 0 = bytes.headD 0 := by
  obtain ⟨count, rfl⟩ : ∃ smaller, count = smaller + 1 := ⟨count - 1, by omega⟩
  cases bytes <;> cases other <;> simp_all

theorem take_drop_eq_of_take {bytes other : List UInt8} {start count total : Nat}
    (within : start + count ≤ total) (same : other.take total = bytes.take total) :
    (other.drop start).take count = (bytes.drop start).take count := by
  have shorter := congrArg (fun shown => (shown.drop start).take count) same
  simpa only [List.drop_take, List.take_take, Nat.min_eq_left (show count ≤ total - start by omega)]
    using shorter

/-- The bytes in front of the first that fails a test are found from them and that one. -/
theorem takeWhile_congr {test : UInt8 → Bool} {bytes other : List UInt8}
    (size : other.length = bytes.length)
    (same : other.take ((bytes.takeWhile test).length + 1) =
      bytes.take ((bytes.takeWhile test).length + 1)) :
    other.takeWhile test = bytes.takeWhile test := by
  induction bytes generalizing other with
  | nil => rw [List.eq_nil_of_length_eq_zero size]
  | cons byte bytes ih =>
      cases other with
      | nil => cases size
      | cons first other =>
          rw [List.take_succ_cons, List.take_succ_cons, List.cons.injEq] at same
          obtain ⟨rfl, same⟩ := same
          cases passes : test first with
          | false => simp [passes]
          | true =>
              rw [List.takeWhile_cons_of_pos passes, List.length_cons] at same
              rw [List.takeWhile_cons_of_pos passes, List.takeWhile_cons_of_pos passes,
                ih (Nat.succ.inj size) same]

/-- An argument is read from as many bytes as it has; a broken one that would go on behind the end may
look at all of them. -/
theorem readArgument_congr {opcode : Opcode} {code : ArgumentCode} {textFollows : Bool}
    {bytes other : List UInt8} (size : other.length = bytes.length)
    (same : other.take (readArgument opcode code textFollows bytes).2 =
      bytes.take (readArgument opcode code textFollows bytes).2) :
    readArgument opcode code textFollows other = readArgument opcode code textFollows bytes := by
  have whole : ∀ count, bytes.length ≤ count → other.take count = bytes.take count →
      other = bytes := by
    intro count long same
    rwa [List.take_of_length_le (by omega), List.take_of_length_le long] at same
  cases code with
  | none => rfl
  | number | negativeNumber | indirectNumber =>
      have number : numberAtStart other = numberAtStart bytes := by
        simp only [readArgument, numberAtStart] at same ⊢
        cases read : readGroups bytes with
        | none =>
            -- a number whose last group is missing takes all bytes there are
            rw [read] at same
            rw [whole _ (Nat.le_refl _) same, read]
        | some result =>
            obtain ⟨number, total⟩ := result
            rw [read, Option.getD_some] at same
            have again := readGroups_append (readGroups_take read) (other.drop total)
            rw [← same, List.take_append_drop] at again
            rw [again.1]
            rfl
      simp only [readArgument, number]
  | stack | indirectStack | localLabel =>
      simp only [readArgument, registerAtStart, headD_eq_of_take Nat.one_pos same]
  | text | indirectText =>
      simp only [readArgument] at same
      have head := headD_eq_of_take (by omega) same
      have text := take_drop_eq_of_take (Nat.le_refl _) same
      simp only [readArgument, textAtStart, head, text]
  | double =>
      cases textFollows with
      | false =>
          simp only [readArgument, Bool.false_eq_true, if_false] at same ⊢
          rw [same]
      | true =>
          simp only [readArgument, if_true] at same ⊢
          have value := take_drop_eq_of_take (show 0 + 8 ≤ _ by omega) same
          have text := takeWhile_congr (by rw [List.length_drop, List.length_drop, size])
            (take_drop_eq_of_take (Nat.le_of_eq (Nat.add_assoc 8 _ 1).symm) same)
          rw [List.drop_zero, List.drop_zero] at value
          rw [value, text]
  | longText =>
      simp only [readArgument] at same
      have length := take_drop_eq_of_take (show 0 + 2 ≤ _ by omega) same
      have text := take_drop_eq_of_take (Nat.le_refl _) same
      rw [List.drop_zero, List.drop_zero] at length
      simp only [readArgument, length, text]

/-- An instruction is read from its bytes in front of its cache. -/
theorem decode_congr {bytes other : List UInt8} {address : Nat}
    (size : other.length = bytes.length)
    (same : ∀ place, address ≤ place → place < (decode bytes address).contentEnd address →
      other[place]? = bytes[place]?) :
    decode other address = decode bytes address := by
  generalize isHere : bytes.drop address = here
  generalize isFirst : here.headD 0 = first
  generalize isSecond : (here.drop 1).headD 0 = second
  generalize isOpcode : (headerOpcode? first second).getD .null = opcode
  generalize isCode : (ArgumentCode.ofHeader? second).getD .none = code
  generalize isRead : readArgument opcode code (second &&& textMark != 0) (here.drop 2) = read
  have contentEnd : (decode bytes address).contentEnd address = address + (2 + read.2) := by
    simp only [decode, isHere, isFirst, isSecond, isOpcode, isCode, isRead, Decoded.contentEnd]
    split <;> simp [Nat.add_assoc]
  have shown : (other.drop address).take (2 + read.2) = here.take (2 + read.2) := by
    refine List.ext_getElem? fun place => ?_
    rw [← isHere, List.getElem?_take, List.getElem?_take, List.getElem?_drop, List.getElem?_drop]
    split
    · exact same _ (by omega) (by omega)
    · rfl
  have firstShown : (other.drop address).headD 0 = first := by
    rw [headD_eq_of_take (by omega) shown, isFirst]
  have secondShown : ((other.drop address).drop 1).headD 0 = second := by
    rw [headD_eq_of_take Nat.one_pos (take_drop_eq_of_take (by omega) shown), isSecond]
  have argumentShown : readArgument opcode code (second &&& textMark != 0)
      ((other.drop address).drop 2) = read := by
    rw [← isRead]
    refine readArgument_congr ?_ ?_
    · rw [← isHere, List.length_drop, List.length_drop, List.length_drop, List.length_drop, size]
    · rw [isRead]
      exact take_drop_eq_of_take (Nat.le_refl _) shown
  simp only [decode, isHere, isFirst, isSecond, isOpcode, isCode, isRead, firstShown, secondShown,
    argumentShown]

end Codec

namespace Program

/-! ## Programs that differ in their caches -/

/-- A text of the same size has the same lines if each of them is read from it. -/
theorem linesFrom_congr {text other : List UInt8} (size : other.length = text.length)
    {address : Nat}
    (same : ∀ line ∈ linesFrom text address, Codec.decode other line.1 = line.2) :
    linesFrom other address = linesFrom text address := by
  fun_induction linesFrom text address with
  | case1 address within ih =>
      have first := same (address, Codec.decode text address) List.mem_cons_self
      rw [linesFrom, size, if_pos within, first,
        ih fun line later => same line (List.mem_cons_of_mem _ later)]
  | case2 address outside => rw [linesFrom, size, if_neg outside]

/-- Whether a place is in the jump cache of a line. -/
def IsInCache (program : Program) (place : Nat) : Prop :=
  ∃ line ∈ program.lines, ∃ start, line.2.cache = some start ∧ start ≤ place ∧
    place < start + Codec.cacheLength

/-- Programs with the same lines and the same bytes except for those in jump caches. -/
structure SameButCaches (program other : Program) : Prop where
  isLocked_eq : other.isLocked = program.isLocked
  size_eq : other.size = program.size
  lines_eq : other.lines = program.lines
  byte_eq (place : Nat) : ¬program.IsInCache place → other.text[place]? = program.text[place]?

theorem SameButCaches.refl (program : Program) : SameButCaches program program :=
  ⟨rfl, rfl, rfl, fun _ _ => rfl⟩

theorem SameButCaches.trans {program other third : Program}
    (first : SameButCaches program other) (second : SameButCaches other third) :
    SameButCaches program third := by
  refine ⟨second.isLocked_eq.trans first.isLocked_eq, second.size_eq.trans first.size_eq,
    second.lines_eq.trans first.lines_eq, fun place outside => ?_⟩
  have still : ¬other.IsInCache place := by rwa [IsInCache, first.lines_eq]
  rw [second.byte_eq place still, first.byte_eq place outside]

/-- Writing the cache of a line changes nothing but this cache, whether or not the other lines are
complete. -/
theorem sameButCaches_writeCache {program : Program} {line : Nat × Codec.Decoded} {start : Nat}
    (isLine : line ∈ program.lines) (cache : line.2.cache = some start)
    (within : start + Codec.cacheLength ≤ program.size) (target : Option Nat)
    (cachesEmpty : Bool) :
    SameButCaches program
      { program with text := Codec.writeCache program.text start target, cachesEmpty } := by
  have fits : start + (Codec.cacheBytes target).length ≤ program.text.length := by
    rwa [Codec.cacheBytes_length]
  have apart : ∀ place, place < start ∨ start + Codec.cacheLength ≤ place →
      (Codec.writeCache program.text start target)[place]? = program.text[place]? := by
    intro place apart
    refine Codec.getElem?_overwrite_of_apart fits ?_
    rwa [Codec.cacheBytes_length]
  have size : (Codec.writeCache program.text start target).length = program.text.length :=
    Codec.length_overwrite fits
  refine ⟨rfl, size, linesFrom_congr size fun other isOther => ?_, fun place outside => ?_⟩
  · -- a line is read from the bytes in front of its own cache, and no two lines overlap
    have read := decode_of_mem_linesFrom isOther
    have atEnd := Codec.contentEnd_le program.text other.1
    rw [read]
    refine Codec.decode_congr size fun place behind inFront => apart place ?_
    by_cases isWritten : line = other
    · rw [← read, ← isWritten, Codec.Decoded.contentEnd, cache, Option.getD_some] at inFront
      exact .inl inFront
    · have cacheEnd := Codec.decode_cache ((decode_of_mem_linesFrom isLine) ▸ cache)
      rw [← decode_of_mem_linesFrom isLine] at cacheEnd
      rw [← read] at inFront atEnd
      rcases apart_of_ne isLine isOther isWritten with before | after <;> omega
  · refine apart place (Decidable.byContradiction fun inside => outside ?_)
    exact ⟨line, isLine, start, cache, by omega, by omega⟩

/-- Emptying the caches of some lines changes nothing but these caches. -/
theorem sameButCaches_foldl {program : Program} {lines : List (Nat × Codec.Decoded)}
    (within : ∀ line ∈ program.lines, ∀ start, line.2.cache = some start →
      start + Codec.cacheLength ≤ program.size)
    (areLines : ∀ line ∈ lines, line ∈ program.lines) (cachesEmpty : Bool) :
    SameButCaches program { program with
      text := lines.foldl (fun text line =>
        match line.2.cache with
        | some place => Codec.writeCache text place none
        | none => text) program.text
      cachesEmpty } := by
  induction lines generalizing program with
  | nil => exact ⟨rfl, rfl, rfl, fun _ _ => rfl⟩
  | cons line lines ih =>
      have isLine := areLines line List.mem_cons_self
      have further := fun other member => areLines other (List.mem_cons_of_mem line member)
      rw [List.foldl_cons]
      cases cache : line.2.cache with
      | none => exact ih within further
      | some start =>
          have written := sameButCaches_writeCache isLine cache (within line isLine start cache)
            none program.cachesEmpty
          refine written.trans (ih ?_ ?_)
          · rwa [written.lines_eq, written.size_eq]
          · rwa [written.lines_eq]

/-- Emptying all caches changes nothing but the caches. -/
theorem sameButCaches_forgetful {program : Program}
    (within : ∀ line ∈ program.lines, ∀ start, line.2.cache = some start →
      start + Codec.cacheLength ≤ program.size) :
    SameButCaches program program.forgetful :=
  sameButCaches_foldl within (fun _ member => member) true

end Program

end Keystroke
