import Keystroke.Proofs.Lines

/-!
# Jump caches

What a jump remembers stands in the last four bytes of its instruction. Writing there changes neither
the instruction nor its length, so filling and emptying caches keeps the lines of a program.
-/

namespace Keystroke

namespace Codec

/-! ## The four bytes -/

theorem overwrite_append (before chunk after new : List UInt8) {place : Nat}
    (fits : place + new.length ≤ chunk.length) :
    overwrite (before ++ chunk ++ after) (before.length + place) new =
      before ++ overwrite chunk place new ++ after := by
  have front : (before ++ (chunk ++ after)).take (before.length + place) =
      before ++ chunk.take place := by
    rw [List.take_length_add_append, List.take_append_of_le_length (by omega)]
  have back : (before ++ (chunk ++ after)).drop (before.length + place + new.length) =
      chunk.drop (place + new.length) ++ after := by
    rw [Nat.add_assoc, List.drop_length_add_append, List.drop_append_of_le_length fits]
  simp only [overwrite, List.append_assoc, front, back]

/-- The bytes that stand for a remembered target, or for none. -/
def cacheBytes (target : Option Nat) : List UInt8 :=
  (target.map (wordBytes cacheLength)).getD emptyCache

theorem cacheBytes_length (target : Option Nat) : (cacheBytes target).length = cacheLength := by
  cases target with
  | none => rfl
  | some target => exact wordBytes_length cacheLength target

theorem writeCache_eq (bytes : List UInt8) (place : Nat) (target : Option Nat) :
    writeCache bytes place target = overwrite bytes place (cacheBytes target) :=
  rfl

theorem writeCache_append (before chunk after : List UInt8) {place : Nat} (target : Option Nat)
    (fits : place + cacheLength ≤ chunk.length) :
    writeCache (before ++ chunk ++ after) (before.length + place) target =
      before ++ writeCache chunk place target ++ after := by
  rw [writeCache_eq, writeCache_eq, overwrite_append]
  rwa [cacheBytes_length]

theorem readCache_append (before chunk after : List UInt8) {place : Nat}
    (fits : place + cacheLength ≤ chunk.length) :
    readCache (before ++ chunk ++ after) (before.length + place) = readCache chunk place := by
  have field : ((before ++ (chunk ++ after)).drop (before.length + place)).take cacheLength =
      (chunk.drop place).take cacheLength := by
    rw [List.drop_length_add_append, List.drop_append_of_le_length (by omega),
      List.take_append_of_le_length (by rw [List.length_drop]; omega)]
  simp only [readCache, List.append_assoc, field]

theorem take_drop_overwrite {bytes : List UInt8} {place : Nat} (new : List UInt8)
    (fits : place + new.length ≤ bytes.length) :
    ((overwrite bytes place new).drop place).take new.length = new := by
  rw [overwrite, List.append_assoc, List.drop_left' (List.length_take_of_le (by omega)),
    List.take_left]

/-- A remembered target that four bytes hold, other than the mark of an empty cache, is read back. -/
theorem readCache_writeCache {chunk : List UInt8} {place : Nat}
    (fits : place + cacheLength ≤ chunk.length) (target : Option Nat)
    (small : ∀ address ∈ target, address < 2 ^ 32 - 1) :
    readCache (writeCache chunk place target) place = target := by
  have field : ((writeCache chunk place target).drop place).take cacheLength =
      cacheBytes target := by
    have same := take_drop_overwrite (cacheBytes target)
      (show place + (cacheBytes target).length ≤ chunk.length by rwa [cacheBytes_length])
    rwa [cacheBytes_length, ← writeCache_eq] at same
  rw [readCache, field]
  cases target with
  | none => rfl
  | some address =>
      have bound := small address rfl
      have word : wordOf (wordBytes cacheLength address) = address := by
        rw [wordOf_wordBytes, Nat.mod_eq_of_lt (lt_of_lt_of_le bound (by decide))]
      have filled : wordBytes cacheLength address ≠ emptyCache := by
        intro empty
        have mark : wordOf emptyCache = 2 ^ 32 - 1 := by decide
        rw [empty, mark] at word
        omega
      simp only [cacheBytes, Option.map_some, Option.getD_some, if_neg filled, word]

/-! ## Instructions that differ in their caches -/

/-- The bytes of a complete instruction that is read as another one is, so that the two differ at most
in what a cache remembers. -/
structure SameButCache (chunk other : List UInt8) : Prop where
  complete : IsComplete other
  decode_eq : decode other 0 = decode chunk 0

namespace IsComplete

variable {chunk : List UInt8}

/-- The jump cache is at the end of its instruction. -/
theorem cache_at_end (complete : IsComplete chunk) {place : Nat}
    (cache : (decode chunk 0).cache = some place) :
    2 ≤ place ∧ place + cacheLength = chunk.length := by
  obtain ⟨first, second, rest, opcode, code, argument, rfl, command, kind, known, length⟩ :=
    complete.parts
  obtain ⟨-, -, count⟩ := argument_append known (by omega) opcode []
  rw [decode_parts command kind] at cache
  simp only [count] at cache
  split at cache
  · next caches =>
      obtain rfl : 2 + argument = place := Option.some.inj cache
      rw [cacheSize, if_pos caches] at length
      simp only [List.length_cons]
      omega
  · cases cache

/-- Writing a cache changes neither an instruction nor its length. -/
theorem writeCache_sameButCache (complete : IsComplete chunk) {place : Nat}
    (cache : (decode chunk 0).cache = some place) (target : Option Nat) :
    SameButCache chunk (writeCache chunk place target) := by
  obtain ⟨-, atEnd⟩ := complete.cache_at_end cache
  obtain ⟨first, second, rest, opcode, code, argument, rfl, command, kind, known, length⟩ :=
    complete.parts
  obtain ⟨-, -, count⟩ := argument_append known (by omega) opcode []
  have written : writeCache (first :: second :: rest) place target =
      first :: second :: (rest.take argument ++ cacheBytes target) := by
    rw [decode_parts command kind] at cache
    simp only [count] at cache
    split at cache
    · obtain rfl : 2 + argument = place := Option.some.inj cache
      rw [writeCache_eq, overwrite, cacheBytes_length, atEnd, List.drop_length, List.append_nil,
        Nat.add_comm 2]
      rfl
    · cases cache
  have size : (rest.take argument).length = argument := List.length_take_of_le (by omega)
  have short := argumentLength?_take known
  obtain ⟨knownNow, sameNow, -⟩ := argument_append short (by omega) opcode (cacheBytes target)
  obtain ⟨-, sameBefore, -⟩ := argument_append short (by omega) opcode (rest.drop argument)
  rw [List.take_append_drop] at sameBefore
  have cacheFits : cacheSize opcode code = cacheLength := by
    simp only [List.length_cons] at atEnd
    rw [decode_parts command kind] at cache
    simp only [count] at cache
    split at cache
    · next caches => rw [cacheSize, if_pos caches]
    · cases cache
  rw [written]
  constructor
  · refine lengthAtStart?_eq_some.mpr ⟨first, second, rest.take argument ++ cacheBytes target,
      opcode, code, argument, rfl, command, kind, knownNow, ?_, ?_⟩
    · rw [List.length_append, size, cacheBytes_length, cacheFits]
    · simp only [List.length_cons, List.length_append, size, cacheBytes_length, cacheFits]
      omega
  · rw [decode_parts command kind, decode_parts command kind, sameNow, sameBefore]

end IsComplete

theorem SameButCache.refl {chunk : List UInt8} (complete : IsComplete chunk) :
    SameButCache chunk chunk :=
  ⟨complete, rfl⟩

theorem SameButCache.length_eq {chunk other : List UInt8} (same : SameButCache chunk other)
    (complete : IsComplete chunk) : other.length = chunk.length := by
  rw [← same.complete.decode_length, same.decode_eq, complete.decode_length]

/-- An instruction with an empty jump cache. -/
def emptied (chunk : List UInt8) : List UInt8 :=
  ((decode chunk 0).cache.map fun place => writeCache chunk place none).getD chunk

/-- Whether the cache of an instruction, if it has one, remembers nothing. -/
def RemembersNothing (chunk : List UInt8) : Prop :=
  ∀ place, (decode chunk 0).cache = some place → readCache chunk place = none

theorem IsComplete.emptied_sameButCache {chunk : List UInt8} (complete : IsComplete chunk) :
    SameButCache chunk (emptied chunk) := by
  rw [emptied]
  cases cache : (decode chunk 0).cache with
  | none => exact .refl complete
  | some place => exact complete.writeCache_sameButCache cache none

theorem IsComplete.remembersNothing_emptied {chunk : List UInt8} (complete : IsComplete chunk) :
    RemembersNothing (emptied chunk) := by
  intro place cache
  rw [complete.emptied_sameButCache.decode_eq] at cache
  rw [emptied, cache, Option.map_some, Option.getD_some]
  exact readCache_writeCache (Nat.le_of_eq (complete.cache_at_end cache).2) none (by simp)

/-- What is written for an instruction has its command and remembers no target. -/
theorem decode_of_encode {instruction : Instruction} {bytes : List UInt8}
    (encoded : encode instruction = .ok bytes) :
    IsComplete bytes ∧ RemembersNothing bytes ∧ (decode bytes 0).instruction =
      ⟨instruction.opcode, storedArgument instruction.opcode instruction.argument⟩ := by
  obtain ⟨code, textFollows, argument, -, endsWithCache, complete, read⟩ := decode_encode encoded
  refine ⟨complete, ?_, by rw [read]⟩
  intro place cache
  rw [read] at cache
  simp only at cache
  split at cache
  · next caches =>
      obtain ⟨front, rfl⟩ := endsWithCache caches
      obtain rfl := Option.some.inj cache
      have place : (front ++ emptyCache).length - cacheLength = front.length := by
        simp [emptyCache]
      rw [place]
      simpa using readCache_emptyCache front []
  · cases cache

end Codec

namespace Program

/-! ## Emptying a whole program -/

theorem placed_eq_of_sameButCache {chunks others : List (List UInt8)}
    (same : List.Forall₂ Codec.SameButCache chunks others)
    (complete : ∀ chunk ∈ chunks, Codec.IsComplete chunk) (address : Nat) :
    placed address others = placed address chunks := by
  induction same generalizing address with
  | nil => rfl
  | @cons chunk other chunks others first _ ih =>
      have length := first.length_eq (complete chunk (by simp))
      rw [placed, placed, first.decode_eq, length,
        ih (fun chunk member => complete chunk (by simp [member]))]

theorem foldl_writeCache_placed {chunks : List (List UInt8)}
    (complete : ∀ chunk ∈ chunks, Codec.IsComplete chunk) (before after : List UInt8) :
    (placed before.length chunks).foldl (fun text line =>
        match line.2.cache with
        | some place => Codec.writeCache text place none
        | none => text) (before ++ chunks.flatten ++ after) =
      before ++ (chunks.map Codec.emptied).flatten ++ after := by
  induction chunks generalizing before with
  | nil => simp [placed]
  | cons chunk chunks ih =>
      have first := complete chunk (by simp)
      have length := first.emptied_sameButCache.length_eq first
      have rest := ih (fun chunk member => complete chunk (by simp [member]))
        (before ++ Codec.emptied chunk)
      rw [List.length_append, length] at rest
      have step : (match ((Codec.decode chunk 0).movedBy before.length).cache with
          | some place => Codec.writeCache (before ++ (chunk :: chunks).flatten ++ after) place none
          | none => before ++ (chunk :: chunks).flatten ++ after) =
            before ++ Codec.emptied chunk ++ chunks.flatten ++ after := by
        rw [Codec.Decoded.movedBy_cache, Codec.emptied]
        cases cache : (Codec.decode chunk 0).cache with
        | none => simp
        | some place =>
            have written := Codec.writeCache_append before chunk (chunks.flatten ++ after) none
              (Nat.le_of_eq (first.cache_at_end cache).2)
            simpa [List.append_assoc] using written
      rw [placed, List.foldl_cons, step, rest]
      simp

/-- Emptying the caches of a program empties each instruction's. -/
theorem withoutCaches_flatten {chunks : List (List UInt8)}
    (complete : ∀ chunk ∈ chunks, Codec.IsComplete chunk) :
    withoutCaches chunks.flatten = (chunks.map Codec.emptied).flatten := by
  have walk := linesFrom_flatten complete []
  have fold := foldl_writeCache_placed complete [] []
  rw [List.nil_append, List.length_nil] at walk
  simp only [List.nil_append, List.append_nil, List.length_nil] at fold
  rw [withoutCaches, walk]
  exact fold

end Program

end Keystroke
