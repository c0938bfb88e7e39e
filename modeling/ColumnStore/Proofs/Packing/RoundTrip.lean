/-
Values in blocks, from one end to the other.

For every sequence of values and every block size that fits 32 bits: what a writer writes is read back from any file that
has it at the cursor, every value is answered, and a file that ends within it is corrupt.
- `delta_packing`: block-delta packing, where each block takes the least width that holds the spread of its values;
- `monotone_packing`: monotone packing of a rising sequence, where a search answers a place of the target, or the number
  of values below it.
-/
import Mathlib.Order.Bounds.Defs
import ColumnStore.Proofs.Packing.Safety
import ColumnStore.Proofs.Storage.Refusal

namespace ColumnStore.Packing

open Storage Storage.Reading

/-! ## Blocks by number -/

/-- the block of a number holds the values from its multiple of the size on -/
theorem getElem?_blocks {size : Nat} (hsize : 0 < size) (vs : List Int64) (b : Nat) :
    (blocks size vs)[b]? = if b * size < vs.length then some ((vs.drop (b * size)).take size) else none := by
  induction b generalizing vs with
  | zero =>
    cases vs with
    | nil => simp [blocks]
    | cons v vs =>
      obtain ⟨size, rfl⟩ : ∃ s, size = s + 1 := ⟨size - 1, by omega⟩
      simp [blocks_cons]
  | succ b ih =>
    cases vs with
    | nil => simp [blocks]
    | cons v vs =>
      have hnext : (b + 1) * size = (size - 1 + b * size) + 1 := by
        rw [Nat.succ_mul]
        omega
      have hinside : b * size < vs.length - (size - 1) ↔ size - 1 + b * size + 1 < vs.length + 1 := by omega
      rw [blocks_cons, List.getElem?_cons_succ, ih, List.length_drop, List.length_cons, hnext, List.drop_succ_cons,
        List.drop_drop]
      simp only [hinside]

theorem length_blocks {size : Nat} (hsize : 0 < size) (vs : List Int64) :
    (blocks size vs).length = blockCount size vs.length := by
  induction vs using blocks.induct size with
  | case1 => rw [blocks, List.length_nil, List.length_nil, blockCount_zero hsize]
  | case2 v vs ih =>
    rw [blocks_cons, List.length_cons, ih, List.length_cons, blockCount_succ hsize, List.length_drop]
    congr 2
    omega

theorem checkBlockSize_of_lt {size : Nat} (hpos : 0 < size) (hsize : size < 2 ^ 32) : checkBlockSize size = .ok () := by
  rw [checkBlockSize, if_neg (by omega), if_neg (by unfold memoryLimit bufferedSize; omega)]

/-! ## Readings that look no further -/

theorem local_countBlocks (size length : Nat) : Local (countBlocks size length) := by
  unfold countBlocks
  split_ifs with hzero
  · exact local_corrupt_bind _ _
  · refine (local_lift _).bind fun count => ?_
    split_ifs
    · exact local_throw _
    · exact local_pure _

theorem Table.local_read {β : Type} {readBlock : (number count : Nat) → Reading β}
    (hblock : ∀ number count, Local (readBlock number count)) (size left number count : Nat) (parsed : Array β) :
    Local (read readBlock size left number count parsed) := by
  induction left generalizing number count parsed with
  | zero => exact local_pure parsed
  | succ left ih => exact (hblock number (min size count)).bind fun block => ih _ _ _

/-! ## Block-delta packing -/

namespace Delta

/-- any two of the values lie less than this many bits apart -/
def SpreadFits (vs : List Int64) (width : Nat) : Prop := ∀ x ∈ vs, ∀ y ∈ vs, x.toInt - y.toInt < 2 ^ width

/-- the width of a block is the least that holds the spread of its values -/
theorem width_isLeast (vs : List Int64) : IsLeast {w | SpreadFits vs w} (width vs) := by
  by_cases hne : vs = []
  · subst hne
    exact ⟨fun x hx => absurd hx List.not_mem_nil, fun w _ => Nat.zero_le w⟩
  have hleast := least_mem hne
  have hgreatest := greatest_mem hne
  have hspread := toNat_offset (least_le hgreatest)
  refine ⟨fun x hx y hy => ?_, fun w hw => ?_⟩
  · have hfit := (bitsNeeded_le_iff (offset (least vs) (greatest vs)) (width vs)).1 (le_refl _)
    have hx := Int64.le_iff_toInt_le.1 (le_greatest hx)
    have hy := Int64.le_iff_toInt_le.1 (least_le hy)
    have hfit : ((offset (least vs) (greatest vs)).toNat : Int) < 2 ^ width vs := by exact_mod_cast hfit
    omega
  · have hfit := hw _ hgreatest _ hleast
    rw [← hspread] at hfit
    exact (bitsNeeded_le_iff _ w).2 (by exact_mod_cast hfit)

namespace Reader

theorem local_readBlock (number count : Nat) : Local (readBlock number count) := by
  refine local_byte.bind fun token => ?_
  dsimp only
  by_cases hwide : 64 < token.toNat / 2
  · rw [if_pos hwide]
    exact local_corrupt_bind _ _
  · rw [if_neg hwide]
    have hdata (base : Int64) : Local (do
        let data ← bytes (← lift (packedLength? count (token.toNat / 2)))
        return (⟨base, token.toNat / 2, data⟩ : Block)) :=
      (local_lift _).bind fun length => (local_bytes length).bind fun data => local_pure _
    split_ifs
    · exact (local_pure _).bind hdata
    · exact (local_varint.map _).bind hdata

theorem local_read (size length : Nat) : Local (read size length) := by
  refine (local_countBlocks size length).bind fun count => ?_
  rw [Table.delta_readBlocks_eq]
  exact (Table.local_read local_readBlock size count 0 length #[]).bind fun blocks => local_pure _

end Reader

/-- **Block-delta packing.** Whatever the values and the block size, what is written is parsed again wherever it stands and
whatever follows it, every value is read back, every block has the least width for the spread of its values, and a file
that ends before the payload does is corrupt. -/
theorem delta_packing (size : Nat) (hpos : 0 < size) (hsize : size < 2 ^ 32) (vs : List Int64)
    (htable : tabledSize * blockCount size vs.length ≤ memoryLimit) :
    ∃ (ps : List Bytes) (r : Reader), pieces size vs = .ok ps ∧
      Takes (Reader.read size vs.length) ps.flatten r ∧
      (∀ i (h : i < vs.length), r.get i = .ok vs[i]) ∧
      r.blocks.size = blockCount size vs.length ∧
      (∀ b (h : b < r.blocks.size), IsLeast {w | SpreadFits ((vs.drop (b * size)).take size) w} r.blocks[b].width) ∧
      RefusesCut (Reader.read size vs.length) ps.flatten := by
  have htakes := takes_read hpos hsize htable
  refine ⟨_, reader size vs, pieces_eq (checkBlockSize_of_lt hpos hsize) vs, ?_, fun i h => get_reader hpos hsize h, ?_,
    fun b h => ?_, ?_⟩
  · rwa [flatten_pieces]
  · simp [reader, length_blocks hpos]
  · have hchunk := getElem?_blocks hpos vs b
    have hb : b < (blocks size vs).length := by simpa [reader] using h
    rw [List.getElem?_eq_getElem hb] at hchunk
    split_ifs at hchunk
    rw [← Option.some.inj hchunk]
    simpa [reader, block] using width_isLeast (blocks size vs)[b]
  · rw [flatten_pieces]
    exact htakes.refusesCut (Reader.local_read _ _) (Reader.checked_read hsize htable)

/-- the extremes of a word share a block, and the last block is a shorter one -/
theorem delta_packing_extremes :
    let vs : List Int64 := [Int64.minValue, Int64.maxValue, 0, -1, 1]
    0 < 4 ∧ 4 < 2 ^ 32 ∧ tabledSize * blockCount 4 vs.length ≤ memoryLimit ∧
    ∃ (ps : List Bytes) (r : Reader), pieces 4 vs = .ok ps ∧ Takes (Reader.read 4 5) ps.flatten r ∧
      r.get 0 = .ok Int64.minValue ∧ r.get 1 = .ok Int64.maxValue ∧ r.get 4 = .ok 1 ∧ r.blocks.size = 2 ∧
      RefusesCut (Reader.read 4 5) ps.flatten := by
  intro vs
  have htable : tabledSize * blockCount 4 vs.length ≤ memoryLimit := by decide
  obtain ⟨ps, r, hpieces, htakes, hget, hcount, -, hcut⟩ := delta_packing 4 (by decide) (by decide) vs htable
  exact ⟨by decide, by decide, htable, ps, r, hpieces, htakes, hget 0 (by decide), hget 1 (by decide), hget 4 (by decide),
    hcount.trans (by decide), hcut⟩

end Delta

/-! ## Monotone packing -/

namespace Monotone

namespace Reader

theorem local_readBlock (number count : Nat) : Local (readBlock number count) := by
  refine local_varint.bind fun w => local_uint32.bind fun slope => local_byte.bind fun token => ?_
  dsimp only
  split_ifs
  · exact local_corrupt_bind _ _
  · exact (local_lift _).bind fun length => (local_bytes _).bind fun data => local_pure _

theorem local_read (size length : Nat) : Local (read size length) := by
  refine (local_countBlocks size length).bind fun count => ?_
  rw [Table.monotone_readBlocks_eq]
  exact (Table.local_read local_readBlock size count 0 length #[]).bind fun blocks => local_pure _

end Reader

/-- the place before which a missing target would go counts the values below it -/
theorem before_eq_countP {vs : List Int64} {target : Int64} {k : Nat}
    (h : (Found.before k).Fits (fun i => compare (vs[i]?.getD 0) target) vs.length) :
    k = vs.countP (· < target) := by
  obtain ⟨hk, hbelow, habove⟩ := h
  have hlow : (vs.take k).countP (· < target) = k := by
    have hall : ∀ v ∈ vs.take k, decide (v < target) = true := by
      intro v hv
      obtain ⟨i, hi, rfl⟩ := List.mem_iff_getElem.1 hv
      rw [List.length_take] at hi
      have hlt := (compare_lt_iff _ _).1 (hbelow i (by omega))
      rw [List.getElem?_eq_getElem (by omega), Option.getD_some] at hlt
      simpa using hlt
    rw [List.countP_eq_length.2 hall, List.length_take, Nat.min_eq_left hk]
  have hhigh : (vs.drop k).countP (· < target) = 0 := by
    rw [List.countP_eq_zero]
    intro v hv
    obtain ⟨i, hi, rfl⟩ := List.mem_iff_getElem.1 hv
    rw [List.length_drop] at hi
    have hgt := (compare_gt_iff _ _).1 (habove (k + i) (by omega) (by omega))
    rw [List.getElem?_eq_getElem (by omega), Option.getD_some] at hgt
    simpa using Int64.le_of_lt hgt
  rw [← List.take_append_drop k vs, List.countP_append, hlow, hhigh, Nat.add_zero]

/-- **Finding a value.** In a rising sequence a search answers a place of the target, or how many values are below it. -/
theorem search_reader_eq {size : Nat} (hpos : 0 < size) (hsize : size < 2 ^ 32) {vs : List Int64}
    (hrising : vs.Pairwise (· ≤ ·)) (target : Int64) :
    (target ∈ vs → ∃ i, (reader size vs).search target = .ok (.here i) ∧ vs[i]? = some target) ∧
      (target ∉ vs → (reader size vs).search target = .ok (.before (vs.countP (· < target)))) := by
  obtain ⟨found, hfound, hfits⟩ := search_reader hpos hsize hrising target
  cases found with
  | here i =>
    obtain ⟨hi, heq⟩ := hfits
    rw [compare_eq_iff, List.getElem?_eq_getElem hi, Option.getD_some] at heq
    have hplace : vs[i]? = some target := by rw [List.getElem?_eq_getElem hi, heq]
    exact ⟨fun _ => ⟨i, hfound, hplace⟩, fun hmissing => absurd (List.mem_of_getElem? hplace) hmissing⟩
  | before k =>
    refine ⟨fun hmem => ?_, fun _ => by rw [hfound, before_eq_countP hfits]⟩
    obtain ⟨i, hi, heq⟩ := List.mem_iff_getElem.1 hmem
    refine absurd ((compare_eq_iff _ _).2 ?_) (hfits.ne_eq hi)
    rw [List.getElem?_eq_getElem hi, Option.getD_some, heq]

/-- **Monotone packing.** Whatever rising sequence is written in blocks of whatever size, it is parsed again wherever it
stands and whatever follows it, every value is read back however its prediction was rounded, a search answers a place of
its target or the number of values below it, and a file that ends before the payload does is corrupt. -/
theorem monotone_packing (size : Nat) (hpos : 0 < size) (hsize : size < 2 ^ 32) {vs : List Int64}
    (hrising : vs.Pairwise (· ≤ ·)) (htable : tabledSize * blockCount size vs.length ≤ memoryLimit) :
    ∃ (ps : List Bytes) (r : Reader), pieces size vs = .ok ps ∧
      Takes (Reader.read size vs.length) ps.flatten r ∧
      (∀ i (h : i < vs.length), r.get i = .ok vs[i]) ∧
      (∀ target,
        (target ∈ vs → ∃ i, r.search target = .ok (.here i) ∧ vs[i]? = some target) ∧
        (target ∉ vs → r.search target = .ok (.before (vs.countP (· < target))))) ∧
      RefusesCut (Reader.read size vs.length) ps.flatten := by
  have htakes := takes_read hpos hsize htable
  refine ⟨_, reader size vs, pieces_eq (checkBlockSize_of_lt hpos hsize) (isRising_of_rising hrising), ?_,
    fun i h => get_reader hpos hsize h, search_reader_eq hpos hsize hrising, ?_⟩
  · rwa [flatten_pieces]
  · rw [flatten_pieces]
    exact htakes.refusesCut (Reader.local_read _ _) (Reader.checked_read hsize htable)

/-- from one extreme to the other, with a value that stands twice: it is found, and what is missing goes before what is
greater -/
theorem monotone_packing_extremes :
    let vs : List Int64 := [Int64.minValue, -7, -7, 3, Int64.maxValue]
    0 < 2 ∧ 2 < 2 ^ 32 ∧ vs.Pairwise (· ≤ ·) ∧ tabledSize * blockCount 2 vs.length ≤ memoryLimit ∧
    ∃ (ps : List Bytes) (r : Reader), pieces 2 vs = .ok ps ∧ Takes (Reader.read 2 5) ps.flatten r ∧
      r.get 0 = .ok Int64.minValue ∧ r.get 4 = .ok Int64.maxValue ∧
      (∃ i, r.search (-7) = .ok (.here i) ∧ vs[i]? = some (-7)) ∧ r.search 4 = .ok (.before 4) ∧
      RefusesCut (Reader.read 2 5) ps.flatten := by
  intro vs
  have hrising : vs.Pairwise (· ≤ ·) := by decide
  have htable : tabledSize * blockCount 2 vs.length ≤ memoryLimit := by decide
  obtain ⟨ps, r, hpieces, htakes, hget, hsearch, hcut⟩ :=
    monotone_packing 2 (by decide) (by decide) hrising htable
  exact ⟨by decide, by decide, hrising, htable, ps, r, hpieces, htakes, hget 0 (by decide), hget 4 (by decide),
    (hsearch (-7)).1 (by decide), (hsearch 4).2 (by decide), hcut⟩

end Monotone

end ColumnStore.Packing
