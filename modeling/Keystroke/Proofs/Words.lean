import Mathlib
import Keystroke.Instruction.Codec

/-!
# Words as bytes

A word of a fixed width is read back from its bytes, and a number of thirty-two bits from its groups
of seven. Both are stated with any bytes behind, as they stand in a program or a file.
-/

namespace Keystroke.Codec

/-! ## Words of a fixed width -/

theorem wordBytes_succ (count word : Nat) :
    wordBytes (count + 1) word = (word / 256 ^ count).toUInt8 :: wordBytes count word := by
  simp [wordBytes, List.range_succ]

@[simp]
theorem wordBytes_length (count word : Nat) : (wordBytes count word).length = count := by
  simp [wordBytes]

theorem wordBytes_two (word : Nat) :
    wordBytes 2 word = [(word / 256).toUInt8, word.toUInt8] := by
  simp [wordBytes, List.range_succ]

theorem foldl_wordBytes (count word start : Nat) :
    (wordBytes count word).foldl (fun word byte => word * 256 + byte.toNat) start =
      start * 256 ^ count + word % 256 ^ count := by
  induction count generalizing start with
  | zero => simp [wordBytes, Nat.mod_one]
  | succ count ih =>
      have digit : word % 256 ^ (count + 1) =
          word / 256 ^ count % 256 * 256 ^ count + word % 256 ^ count := by
        rw [Nat.pow_succ, Nat.mod_mul, Nat.add_comm, Nat.mul_comm]
      rw [wordBytes_succ, List.foldl_cons, ih, digit, Nat.pow_succ, Nat.toUInt8,
        UInt8.toNat_ofNat', Nat.add_mul]
      ring

/-- A word that fits its width is read back from its bytes. -/
@[simp]
theorem wordOf_wordBytes (count word : Nat) :
    wordOf (wordBytes count word) = word % 256 ^ count := by
  simp [wordOf, foldl_wordBytes]

theorem wordOf_pair (high low : UInt8) : wordOf [high, low] = high.toNat * 256 + low.toNat := by
  simp [wordOf]

/-! ## Numbers in groups of seven bits -/

theorem marked_iff (byte : UInt8) : (byte &&& 0x80 != 0) = decide (128 ≤ byte.toNat) := by
  have every : ∀ number < 256, (UInt8.ofNat number &&& 0x80 != 0) = decide (128 ≤ number) := by
    decide +kernel
  simpa using every byte.toNat byte.toNat_lt

theorem toNat_payload (byte : UInt8) : (byte &&& 0x7F).toNat = byte.toNat % 128 := by
  rw [UInt8.toNat_and]
  exact Nat.and_two_pow_sub_one_eq_mod byte.toNat 7

/-- Reading one more group multiplies by 128 and adds the payload. -/
theorem toNat_shifted_or (number : UInt32) (byte : UInt8) (fits : number.toNat < 2 ^ 25) :
    (number <<< 7 ||| (byte &&& 0x7F).toUInt32).toNat =
      number.toNat * 128 + byte.toNat % 128 := by
  have shifted : number.toNat <<< 7 % 2 ^ 32 = 2 ^ 7 * number.toNat := by
    rw [Nat.shiftLeft_eq, Nat.mod_eq_of_lt (by omega), Nat.mul_comm]
  rw [UInt32.toNat_or, UInt32.toNat_shiftLeft, UInt8.toNat_toUInt32, toNat_payload]
  change number.toNat <<< 7 % 2 ^ 32 ||| byte.toNat % 128 = _
  rw [shifted, ← Nat.two_pow_add_eq_or_of_lt (Nat.mod_lt _ (by decide)), Nat.mul_comm]

theorem readGroups_go_step (limit count : Nat) (number : UInt32) (byte : UInt8)
    (rest : List UInt8) :
    readGroups.go (limit + 1) number count (byte :: rest) =
      if 128 ≤ byte.toNat then
        some (number <<< 7 ||| (byte &&& 0x7F).toUInt32, count + 1)
      else
        readGroups.go limit (number <<< 7 ||| (byte &&& 0x7F).toUInt32) (count + 1) rest := by
  simp [readGroups.go, marked_iff]

/-- Reading the groups in front of `written` continues with what `written` is read as. -/
theorem readGroups_go_groupsBefore (fuel number : Nat) (written : List UInt8) (result : UInt32)
    (enough : number < 128 ^ fuel) (fits : number < 2 ^ 25)
    (reads : ∀ limit count rest, written.length ≤ limit →
      readGroups.go limit number.toUInt32 count (written ++ rest) =
        some (result, count + written.length))
    (limit count : Nat) (rest : List UInt8)
    (room : (groupsBefore fuel number written).length ≤ limit) :
    readGroups.go limit 0 count (groupsBefore fuel number written ++ rest) =
      some (result, count + (groupsBefore fuel number written).length) := by
  induction fuel generalizing number written with
  | zero =>
      obtain rfl : number = 0 := by simpa using enough
      exact reads limit count rest room
  | succ fuel ih =>
      by_cases last : number < 128
      · simp only [groupsBefore, if_pos last, List.length_cons] at room ⊢
        obtain ⟨limit, rfl⟩ : ∃ smaller, limit = smaller + 1 := ⟨limit - 1, by omega⟩
        have toNat : number.toUInt8.toNat = number := by
          rw [Nat.toUInt8, UInt8.toNat_ofNat', Nat.mod_eq_of_lt (by omega)]
        have same : (0 : UInt32) <<< 7 ||| (number.toUInt8 &&& 0x7F).toUInt32 =
            number.toUInt32 := by
          apply UInt32.toNat_inj.mp
          rw [toNat_shifted_or 0 _ (by decide), toNat, Nat.toUInt32, UInt32.toNat_ofNat']
          simp only [UInt32.toNat_zero]
          omega
        rw [List.cons_append, readGroups_go_step, if_neg (by omega), same,
          reads limit (count + 1) rest (by omega)]
        simp only [Option.some.injEq, Prod.mk.injEq, true_and]
        omega
      · simp only [groupsBefore, if_neg last] at room ⊢
        refine ih (number / 128) _ ?_ (by omega) ?_ room
        · rw [Nat.div_lt_iff_lt_mul (by decide)]
          simpa [Nat.pow_succ] using enough
        · intro limit count rest room
          obtain ⟨limit, rfl⟩ : ∃ smaller, limit = smaller + 1 :=
            ⟨limit - 1, by simp only [List.length_cons] at room; omega⟩
          simp only [List.length_cons, Nat.add_le_add_iff_right] at room
          have toNat : (number % 128).toUInt8.toNat = number % 128 := by
            rw [Nat.toUInt8, UInt8.toNat_ofNat']
            omega
          have quotient : (number / 128).toUInt32.toNat = number / 128 := by
            rw [Nat.toUInt32, UInt32.toNat_ofNat']
            omega
          have same : (number / 128).toUInt32 <<< 7 |||
              ((number % 128).toUInt8 &&& 0x7F).toUInt32 = number.toUInt32 := by
            apply UInt32.toNat_inj.mp
            rw [toNat_shifted_or _ _ (by omega), toNat, quotient, Nat.toUInt32,
              UInt32.toNat_ofNat']
            omega
          rw [List.cons_append, readGroups_go_step, if_neg (by omega), same,
            reads limit (count + 1) rest room]
          simp only [List.length_cons, Option.some.injEq, Prod.mk.injEq, true_and]
          omega

theorem groupsBefore_length_le (fuel number bound : Nat) (written : List UInt8)
    (positive : 0 < bound) (fits : number < 128 ^ bound) :
    (groupsBefore fuel number written).length ≤ written.length + bound := by
  induction fuel generalizing number bound written with
  | zero => simp [groupsBefore]
  | succ fuel ih =>
      by_cases last : number < 128
      · simp only [groupsBefore, if_pos last, List.length_cons]
        omega
      · obtain ⟨bound, rfl⟩ : ∃ smaller, bound = smaller + 1 := ⟨bound - 1, by omega⟩
        have positive : 0 < bound := by
          rcases Nat.eq_zero_or_pos bound with rfl | positive
          · simp only [Nat.zero_add, Nat.pow_one] at fits
            omega
          · exact positive
        have smaller : number / 128 < 128 ^ bound := by
          rw [Nat.div_lt_iff_lt_mul (by decide)]
          simpa [Nat.pow_succ] using fits
        have bounded := ih (number / 128) bound ((number % 128).toUInt8 :: written) positive smaller
        simp only [groupsBefore, if_neg last, List.length_cons] at bounded ⊢
        omega

/-- A number is read back from its groups, whatever stands behind them. -/
theorem readGroups_groups (number : UInt32) (rest : List UInt8) :
    readGroups (groups number ++ rest) = some (number, (groups number).length) := by
  have bound := number.toNat_lt
  have last : (number.toNat % 128 + 128).toUInt8.toNat = number.toNat % 128 + 128 := by
    rw [Nat.toUInt8, UInt8.toNat_ofNat']
    omega
  -- The marked group ends the reading, whatever number the groups in front of it stand for.
  have reads : ∀ limit count rest, 1 ≤ limit →
      readGroups.go limit (number.toNat / 128).toUInt32 count
          ([(number.toNat % 128 + 128).toUInt8] ++ rest) = some (number, count + 1) := by
    intro limit count rest room
    obtain ⟨limit, rfl⟩ : ∃ smaller, limit = smaller + 1 := ⟨limit - 1, by omega⟩
    have quotient : (number.toNat / 128).toUInt32.toNat = number.toNat / 128 := by
      rw [Nat.toUInt32, UInt32.toNat_ofNat']
      omega
    have same : (number.toNat / 128).toUInt32 <<< 7 |||
        ((number.toNat % 128 + 128).toUInt8 &&& 0x7F).toUInt32 = number := by
      apply UInt32.toNat_inj.mp
      rw [toNat_shifted_or _ _ (by omega), last, quotient]
      omega
    rw [List.singleton_append, readGroups_go_step, if_pos (by omega), same]
  unfold readGroups groups
  by_cases single : number.toNat < 128
  · have zero : number.toNat / 128 = 0 := by omega
    simpa [zero, if_pos single] using reads 5 0 rest (by decide)
  · have room : (groupsBefore 5 (number.toNat / 128)
        [(number.toNat % 128 + 128).toUInt8]).length ≤ 5 :=
      groupsBefore_length_le 5 (number.toNat / 128) 4 _ (by decide) (by omega)
    simpa [if_neg single] using
      readGroups_go_groupsBefore 5 (number.toNat / 128)
        [(number.toNat % 128 + 128).toUInt8] number (by omega) (by omega) reads 5 0 rest room

theorem readGroups_go_append {limit count total : Nat} {start number : UInt32}
    {bytes : List UInt8} (read : readGroups.go limit start count bytes = some (number, total))
    (rest : List UInt8) :
    readGroups.go limit start count (bytes ++ rest) = some (number, total) ∧
      total ≤ count + bytes.length := by
  induction bytes generalizing limit count start with
  | nil => cases limit <;> simp [readGroups.go] at read
  | cons byte bytes ih =>
      cases limit with
      | zero => simp [readGroups.go] at read
      | succ limit =>
          rw [readGroups_go_step] at read
          rw [List.cons_append, readGroups_go_step, List.length_cons]
          split at read
          · next marked =>
              simp only [Option.some.injEq, Prod.mk.injEq] at read
              rw [if_pos marked, read.1, read.2]
              exact ⟨rfl, by omega⟩
          · next unmarked =>
              rw [if_neg unmarked]
              obtain ⟨same, within⟩ := ih read
              exact ⟨same, by omega⟩

theorem readGroups_go_take {limit count total : Nat} {start number : UInt32}
    {bytes : List UInt8} (read : readGroups.go limit start count bytes = some (number, total)) :
    count < total ∧
      readGroups.go limit start count (bytes.take (total - count)) = some (number, total) := by
  induction bytes generalizing limit count start with
  | nil => cases limit <;> simp [readGroups.go] at read
  | cons byte bytes ih =>
      cases limit with
      | zero => simp [readGroups.go] at read
      | succ limit =>
          rw [readGroups_go_step] at read
          split at read
          · next marked =>
              simp only [Option.some.injEq, Prod.mk.injEq] at read
              have one : total - count = 0 + 1 := by omega
              refine ⟨by omega, ?_⟩
              rw [one, List.take_succ_cons, readGroups_go_step, if_pos marked, read.1, read.2]
          · next unmarked =>
              obtain ⟨more, same⟩ := ih read
              refine ⟨by omega, ?_⟩
              rw [show total - count = (total - (count + 1)) + 1 by omega, List.take_succ_cons,
                readGroups_go_step, if_neg unmarked, same]

/-- The groups of a number are all that is needed to read it. -/
theorem readGroups_take {bytes : List UInt8} {number : UInt32} {total : Nat}
    (read : readGroups bytes = some (number, total)) :
    readGroups (bytes.take total) = some (number, total) :=
  (readGroups_go_take read).2

/-- Bytes behind the groups of a number do not change what is read. -/
theorem readGroups_append {bytes : List UInt8} {number : UInt32} {total : Nat}
    (read : readGroups bytes = some (number, total)) (rest : List UInt8) :
    readGroups (bytes ++ rest) = some (number, total) ∧ total ≤ bytes.length := by
  simpa [readGroups] using readGroups_go_append read rest

end Keystroke.Codec
