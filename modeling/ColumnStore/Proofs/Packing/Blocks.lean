/-
Values in blocks: what block-delta and monotone packing have in common.

- `blockwise_eq`: a writer that fills its buffer and empties it writes the blocks of the values, one after the other;
- `exists_block`: the value at a place is found in the block of its number, at the rest of the division;
- `Table.takes_read`: if every single block is read back, so is the table of all blocks.
-/
import ColumnStore.Proofs.Packing.Bits
import ColumnStore.Proofs.Storage.Reading
import ColumnStore.Packing.Monotone

namespace ColumnStore.Packing

open Storage

/-! ## Extremes -/

/-- the greater of two signed words is one of them, and not below the other -/
instance lawfulMax : Std.LawfulOrderLeftLeaningMax Int64 where
  max_eq_left a b h := by
    change (if a ≤ b then b else a) = a
    split
    · exact Int64.le_antisymm h ‹_›
    · rfl
  max_eq_right a b h := by
    change (if a ≤ b then b else a) = b
    rw [if_pos (Int64.le_of_lt (Int64.not_le.1 h))]

theorem least_le {vs : List Int64} {v : Int64} (h : v ∈ vs) : least vs ≤ v := by
  unfold least
  cases hm : vs.min? with
  | none =>
    rw [List.min?_eq_none_iff] at hm
    simp [hm] at h
  | some m => exact (List.min?_eq_some_iff.1 hm).2 v h

theorem le_greatest {vs : List Int64} {v : Int64} (h : v ∈ vs) : v ≤ greatest vs := by
  unfold greatest
  cases hm : vs.max? with
  | none =>
    rw [List.max?_eq_none_iff] at hm
    simp [hm] at h
  | some m => exact (List.max?_eq_some_iff.1 hm).2 v h

theorem least_mem {vs : List Int64} (h : vs ≠ []) : least vs ∈ vs := by
  obtain ⟨m, hm⟩ := Option.isSome_iff_exists.1 (List.isSome_min?_of_ne_nil h)
  rw [least, hm, Option.getD_some]
  exact List.min?_mem hm

theorem greatest_mem {vs : List Int64} (h : vs ≠ []) : greatest vs ∈ vs := by
  obtain ⟨m, hm⟩ := Option.isSome_iff_exists.1 (List.isSome_max?_of_ne_nil h)
  rw [greatest, hm, Option.getD_some]
  exact List.max?_mem hm

/-- the greatest of some words, found by one walk over them -/
theorem le_foldl_max {ws : List UInt64} {w : UInt64} (acc : UInt64) (h : w = acc ∨ w ∈ ws) :
    w.toNat ≤ (ws.foldl max acc).toNat := by
  have hmax : ∀ a b : UInt64, a.toNat ≤ (max a b).toNat ∧ b.toNat ≤ (max a b).toNat := by
    intro a b
    change a.toNat ≤ (if a ≤ b then b else a).toNat ∧ b.toNat ≤ (if a ≤ b then b else a).toNat
    split
    · next hle => exact ⟨UInt64.le_iff_toNat_le.1 hle, le_refl _⟩
    · next hle => exact ⟨le_refl _, by rw [UInt64.le_iff_toNat_le] at hle; omega⟩
  induction ws generalizing acc w with
  | nil =>
    obtain rfl : w = acc := by simpa using h
    exact le_refl _
  | cons x ws ih =>
    rw [List.foldl_cons]
    have hacc := ih (w := max acc x) (max acc x) (Or.inl rfl)
    rcases h with rfl | h
    · exact le_trans (hmax w x).1 hacc
    · rcases List.mem_cons.1 h with rfl | h
      · exact le_trans (hmax acc w).2 hacc
      · exact ih (max acc x) (Or.inr h)

/-- how far a value lies above one that is not greater, as a number -/
theorem toNat_offset {base v : Int64} (h : base ≤ v) : ((Delta.offset base v).toNat : Int) = v.toInt - base.toInt := by
  have hv := BitVec.toInt_eq_toNat_cond v.toBitVec
  have hb := BitVec.toInt_eq_toNat_cond base.toBitVec
  have hle := Int64.le_iff_toInt_le.1 h
  have hvlt := v.toUInt64.toNat_lt
  have hblt := base.toUInt64.toNat_lt
  have hvnat : v.toUInt64.toNat = v.toBitVec.toNat := rfl
  have hbnat : base.toUInt64.toNat = base.toBitVec.toNat := rfl
  have hvint : v.toInt = v.toBitVec.toInt := rfl
  have hbint : base.toInt = base.toBitVec.toInt := rfl
  rw [Delta.offset, UInt64.toNat_sub]
  omega

/-! ## Blocks -/

/-- values in blocks of `size`, the last one perhaps shorter -/
def blocks {α : Type} (size : Nat) : List α → List (List α)
  | [] => []
  | v :: vs => (v :: vs.take (size - 1)) :: blocks size (vs.drop (size - 1))
termination_by vs => vs.length
decreasing_by simp only [List.length_drop, List.length_cons]; omega

theorem blocks_cons {α : Type} (size : Nat) (v : α) (vs : List α) :
    blocks size (v :: vs) = (v :: vs.take (size - 1)) :: blocks size (vs.drop (size - 1)) := by
  rw [blocks]

/-- the first values are a block of their own, where they fill one -/
theorem blocks_append {α : Type} {size : Nat} (hsize : 0 < size) {chunk : List α} (h : chunk.length = size) (vs : List α) :
    blocks size (chunk ++ vs) = chunk :: blocks size vs := by
  cases chunk with
  | nil =>
    rw [List.length_nil] at h
    omega
  | cons v chunk =>
    have hrest : chunk.length = size - 1 := by rw [← h, List.length_cons, Nat.add_sub_cancel]
    rw [List.cons_append, blocks_cons, ← hrest, List.take_left, List.drop_left]

theorem blocks_of_short {α : Type} {size : Nat} {vs : List α} (hne : vs ≠ []) (h : vs.length ≤ size) :
    blocks size vs = [vs] := by
  cases vs with
  | nil => exact absurd rfl hne
  | cons v vs =>
    rw [List.length_cons] at h
    rw [blocks_cons, List.take_of_length_le (by omega), List.drop_of_length_le (by omega), blocks]

/-- what a writer writes in the end: the values of its open block stand before those that still come -/
theorem BlockWriter.finish_foldl (encode : List Int64 → List Bytes) {size : Nat} (vs : List Int64) (w : BlockWriter)
    (h : w.buffer.size < size) :
    (vs.foldl (BlockWriter.add encode size) w).finish encode =
      w.written.toList ++ (blocks size (w.buffer.toList ++ vs)).flatMap encode := by
  induction vs generalizing w with
  | nil =>
    rw [List.foldl_nil, List.append_nil, finish]
    split
    · next hempty =>
      rw [Array.isEmpty_iff.1 hempty]
      simp [blocks]
    · next hopen =>
      have hne : w.buffer.toList ≠ [] := by simpa using hopen
      rw [blocks_of_short hne (by simpa using Nat.le_of_lt h)]
      simp [flush]
  | cons v vs ih =>
    rw [List.foldl_cons]
    by_cases hfull : w.buffer.size + 1 = size
    · have hadd : add encode size w v = { written := w.written ++ encode (w.buffer.toList ++ [v]), buffer := #[] } := by
        simp [add, flush, hfull]
      have hblock := blocks_append (by omega) (show (w.buffer.toList ++ [v]).length = size by simpa using hfull) vs
      rw [List.append_assoc, List.singleton_append] at hblock
      rw [hadd, ih _ (by simp; omega), hblock]
      simp
    · have hadd : add encode size w v = { w with buffer := w.buffer.push v } := by
        simp [add, hfull]
      rw [hadd, ih _ (by simp; omega)]
      simp

/-- **Block by block.** A writer that fills one block after the other writes the blocks of the values. -/
theorem blockwise_eq (encode : List Int64 → List Bytes) {size : Nat} (hsize : 0 < size) (vs : List Int64) :
    blockwise encode size vs = (blocks size vs).flatMap encode := by
  rw [blockwise, BlockWriter.finish_foldl encode vs {} hsize]
  simp

theorem pos_of_checkBlockSize {size : Nat} (h : checkBlockSize size = .ok ()) : 0 < size := by
  rw [checkBlockSize] at h
  split_ifs at h
  omega

theorem blockCount_zero {size : Nat} (hsize : 0 < size) : blockCount size 0 = 0 := by
  rw [blockCount, Nat.zero_add]
  exact Nat.div_eq_of_lt (by omega)

theorem blockCount_succ {size : Nat} (hsize : 0 < size) (count : Nat) :
    blockCount size (count + 1) = blockCount size (count + 1 - size) + 1 := by
  unfold blockCount
  rw [← Nat.add_div_right _ hsize]
  by_cases h : size ≤ count + 1
  · congr 1
    omega
  · rw [show count + 1 - size = 0 by omega, show count + 1 + size - 1 = count + size by omega, Nat.zero_add,
      Nat.add_div_right _ hsize, Nat.div_eq_of_lt (by omega), Nat.add_div_right _ hsize, Nat.div_eq_of_lt (by omega)]

theorem blockCount_le {size : Nat} (hsize : 0 < size) (count : Nat) : blockCount size count ≤ count := by
  rcases Nat.eq_zero_or_pos count with rfl | hcount
  · rw [blockCount_zero hsize]
  · rw [blockCount]
    apply Nat.div_le_of_le_mul
    obtain ⟨size, rfl⟩ : ∃ s, size = s + 1 := ⟨size - 1, by omega⟩
    obtain ⟨count, rfl⟩ : ∃ c, count = c + 1 := ⟨count - 1, by omega⟩
    rw [Nat.add_mul, Nat.mul_add]
    have := Nat.zero_le (size * count)
    omega

/-- **Where a value is.** The value at a place stands in the block of its number, at the rest of the division. -/
theorem exists_block {size : Nat} (hsize : 0 < size) {vs : List Int64} {i : Nat} (h : i < vs.length) :
    ∃ chunk, (blocks size vs)[i / size]? = some chunk ∧ chunk[i % size]? = some vs[i] := by
  induction i using Nat.strongRecOn generalizing vs with
  | _ i ih =>
    cases vs with
    | nil => simp at h
    | cons v vs =>
      rw [blocks_cons]
      by_cases hi : i < size
      · refine ⟨v :: vs.take (size - 1), ?_, ?_⟩
        · rw [Nat.div_eq_of_lt hi]
          rfl
        · rw [Nat.mod_eq_of_lt hi]
          cases i with
          | zero => rfl
          | succ i =>
            have hlen : i < vs.length := by simpa using h
            rw [List.getElem?_cons_succ, List.getElem?_take_of_lt (by omega), List.getElem?_eq_getElem hlen,
              List.getElem_cons_succ]
      · have hnext : i - size < (vs.drop (size - 1)).length := by
          rw [List.length_drop]
          rw [List.length_cons] at h
          omega
        obtain ⟨chunk, hchunk, hvalue⟩ := ih (i - size) (by omega) hnext
        have hdiv : i / size = (i - size) / size + 1 := Nat.div_eq_sub_div hsize (by omega)
        have hmod : i % size = (i - size) % size := Nat.mod_eq_sub_mod (by omega)
        refine ⟨chunk, ?_, ?_⟩
        · rw [hdiv, List.getElem?_cons_succ, hchunk]
        · have hplace : size - 1 + (i - size) = i - 1 := by omega
          have hpos : i ≠ 0 := by omega
          rw [hmod, hvalue, List.getElem_drop, List.getElem_cons, dif_neg hpos]
          simp only [hplace]

/-! ## Tables of blocks -/

namespace Table

variable {β : Type}

/-- parse `left` more blocks by a parser of one block, the first of them number `number`, holding `count` values -/
def read (readBlock : (number count : Nat) → Reading β) (size : Nat) :
    (left number count : Nat) → Array β → Reading (Array β)
  | 0, _, _, parsed => return parsed
  | left + 1, number, count, parsed => do
    let block ← readBlock number (min size count)
    read readBlock size left (number + 1) (count - size) (parsed.push block)

theorem delta_readBlocks_eq (size left number count : Nat) (parsed : Array Delta.Block) :
    Delta.Reader.readBlocks size left number count parsed =
      read Delta.Reader.readBlock size left number count parsed := by
  induction left generalizing number count parsed with
  | zero => rfl
  | succ left ih => simp only [Delta.Reader.readBlocks, read, ih]

theorem monotone_readBlocks_eq (size left number count : Nat) (parsed : Array Monotone.Block) :
    Monotone.Reader.readBlocks size left number count parsed =
      read Monotone.Reader.readBlock size left number count parsed := by
  induction left generalizing number count parsed with
  | zero => rfl
  | succ left ih => simp only [Monotone.Reader.readBlocks, read, ih]

/-- **All blocks.** If each block of some values is read back, so are all of them, one after the other. -/
theorem takes_read {readBlock : (number count : Nat) → Reading β} {size : Nat} (hsize : 0 < size)
    {bytes : List Int64 → Bytes} {block : List Int64 → β}
    (hblock : ∀ number chunk, chunk.length ≤ size →
      Reading.Takes (readBlock number chunk.length) (bytes chunk) (block chunk))
    (vs : List Int64) (number : Nat) (parsed : Array β) :
    Reading.Takes (read readBlock size (blockCount size vs.length) number vs.length parsed)
      ((blocks size vs).flatMap bytes) (parsed ++ ((blocks size vs).map block).toArray) := by
  induction hn : vs.length using Nat.strongRecOn generalizing vs number parsed with
  | _ n ih =>
    cases vs with
    | nil =>
      subst hn
      rw [List.length_nil, blockCount_zero hsize]
      simpa [blocks, read] using Reading.takes_pure parsed
    | cons v vs =>
      subst hn
      have hchunk : (v :: vs.take (size - 1)).length = min size (vs.length + 1) := by
        rw [List.length_cons, List.length_take]
        omega
      have hrest : (vs.drop (size - 1)).length = vs.length + 1 - size := by
        rw [List.length_drop]
        omega
      rw [List.length_cons, blockCount_succ hsize, blocks_cons, List.flatMap_cons, List.map_cons, read, ← hchunk, ← hrest]
      refine (hblock number _ (hchunk ▸ Nat.min_le_left ..)).bind ?_
      have hall := ih _ (by rw [hrest, List.length_cons]; omega) (vs.drop (size - 1)) (number + 1)
        (parsed.push (block (v :: vs.take (size - 1)))) rfl
      have hpush : parsed.push (block (v :: vs.take (size - 1))) ++ ((blocks size (vs.drop (size - 1))).map block).toArray =
          parsed ++ (block (v :: vs.take (size - 1)) :: (blocks size (vs.drop (size - 1))).map block).toArray := by
        apply Array.toList_inj.1
        simp
      rwa [← hpush]

end Table

/-- the bits of a block that 32 bits count are themselves counted -/
theorem packedLength?_eq {count width : Nat} (hcount : count < 2 ^ 32) (hwidth : width ≤ 64) :
    packedLength? count width = .ok (packedLength count width) := by
  have hbits : count * width ≤ 2 ^ 32 * 64 := Nat.mul_le_mul (Nat.le_of_lt hcount) hwidth
  exact if_pos (Nat.lt_of_le_of_lt hbits (by decide))

/-- the blocks of so few values fit the table of blocks -/
theorem table_fits (size : Nat) {count : Nat} (h : count < 2 ^ 57) : tabledSize * blockCount size count ≤ memoryLimit := by
  have hcount : blockCount size count ≤ count := by
    rcases Nat.eq_zero_or_pos size with rfl | hsize
    · rw [blockCount, Nat.div_zero]
      omega
    · exact blockCount_le hsize count
  unfold tabledSize memoryLimit
  omega

/-- blocks that hold something, and that the memory has room for, are counted -/
theorem countBlocks_eq {size length : Nat} (hsize : 0 < size) (h : tabledSize * blockCount size length ≤ memoryLimit) :
    countBlocks size length = pure (blockCount size length) := by
  rw [countBlocks, if_neg (Nat.ne_of_gt hsize), Strict.divUp_eq hsize]
  exact if_neg (Nat.not_lt.2 h)

end ColumnStore.Packing
