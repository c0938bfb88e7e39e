/-
Monotone packing: what is written is what is read.

The prediction of a value is a float, but the writer and the reader take the same one: it cancels, whatever it is.
- `takes_readBlock`, `takes_read`: a block, and a whole payload, are parsed from the bytes that were written for them;
- `get_reader`: every value is read back;
- `search_reader`: so a search over a rising sequence finds what it holds.
-/
import ColumnStore.Proofs.Packing.Delta
import ColumnStore.Proofs.Search

namespace ColumnStore.Packing.Monotone

open Storage

/-! ## One block -/

/-- what the predictions of a block leave over, above the least of it -/
def rests (vs : List Int64) : List UInt64 :=
  (errors (slope vs) vs).map fun e => (e - least (errors (slope vs) vs)).toUInt64

def width (vs : List Int64) : Nat := bitsNeeded ((rests vs).foldl max 0)

theorem width_le (vs : List Int64) : width vs ≤ 64 := bitsNeeded_le _

theorem length_rests (vs : List Int64) : (rests vs).length = vs.length := by
  simp [rests, errors]

theorem getElem_rests {vs : List Int64} {i : Nat} (h : i < vs.length) (hinside : i < (rests vs).length) :
    (rests vs)[i] = (vs[i] - expected (slope vs) i - least (errors (slope vs) vs)).toUInt64 := by
  simp [rests, errors]

def blockBytes (vs : List Int64) : Bytes := (blockPieces vs).flatten

/-- a block as it is parsed -/
def block (vs : List Int64) : Block where
  base := least (errors (slope vs) vs)
  slope := slope vs
  width := width vs
  data := Bytes.toByteArray (pack (width vs) (rests vs))

theorem blockBytes_eq (vs : List Int64) :
    blockBytes vs = Varint.encode (ZigZag.encode (least (errors (slope vs) vs))).toNat ++
      (Bytes.ofUInt32 (slope vs) ++ ([UInt8.ofNat (width vs)] ++ pack (width vs) (rests vs))) := by
  have hdata : (if width vs = 0 then [] else [pack (width vs) (rests vs)]).flatten = pack (width vs) (rests vs) := by
    split
    · next h => rw [h, Delta.pack_zero]; rfl
    · simp
  have hpieces : blockPieces vs = Varint.pieces (ZigZag.encode (least (errors (slope vs) vs))).toNat ++
      [Bytes.ofUInt32 (slope vs), [UInt8.ofNat (width vs)]] ++
      (if width vs = 0 then [] else [pack (width vs) (rests vs)]) := rfl
  rw [blockBytes, hpieces, List.flatten_append, List.flatten_append, hdata, Varint.flatten_pieces]
  simp

theorem takes_readBlock (number : Nat) {vs : List Int64} (hcount : vs.length < 2 ^ 32) :
    Reading.Takes (Reader.readBlock number vs.length) (blockBytes vs) (block vs) := by
  have hwidth : (UInt8.ofNat (width vs)).toNat = width vs := by
    have := width_le vs
    rw [UInt8.toNat_ofNat', Nat.mod_eq_of_lt (by omega)]
  have hdata : (pack (width vs) (rests vs)).length = packedLength vs.length (width vs) := by
    rw [length_pack, length_rests]
  rw [blockBytes_eq]
  refine (Reading.takes_varint (UInt64.toNat_lt _)).bind ?_
  simp only [UInt64.ofNat_toNat, ZigZag.decode_encode]
  refine (Reading.takes_uint32 _).bind ?_
  refine (Reading.takes_byte _).bind ?_
  simp only [hwidth]
  rw [if_neg (by have := width_le vs; omega)]
  rw [packedLength?_eq hcount (width_le vs), Reading.lift_ok]
  exact (Reading.takes_bytes hdata).bind_last (Reading.takes_pure _)

/-- a block answers the rests that it was made of -/
theorem get_block {vs : List Int64} {i : Nat} (h : i < vs.length) (hplace : i * 64 < 2 ^ 64) :
    Packing.get (block vs).data (block vs).width i =
      .ok (vs[i] - expected (slope vs) i - least (errors (slope vs) vs)).toUInt64 := by
  have hwidth := width_le vs
  have hfit : i * width vs < 2 ^ 64 := lt_of_le_of_lt (Nat.mul_le_mul_left i hwidth) hplace
  have hinside : i < (rests vs).length := by rwa [length_rests]
  have hlt : (rests vs)[i].toNat < 2 ^ width vs :=
    lt_of_le_bitsNeeded (le_foldl_max 0 (Or.inr (List.getElem_mem hinside)))
  have hget := get_pack hwidth (rests vs) i hinside hfit
  rwa [Nat.mod_eq_of_lt hlt, UInt64.ofNat_toNat, getElem_rests h hinside] at hget

/-- base, prediction and rest add up to the value, whatever the prediction is -/
theorem add_rest (base prediction v : Int64) : base + prediction + (v - prediction - base).toUInt64.toInt64 = v := by
  have hword : (v - prediction - base).toUInt64.toInt64 = v - prediction - base := rfl
  rw [hword]
  grind

/-! ## All blocks -/

def payload (size : Nat) (vs : List Int64) : Bytes := (blocks size vs).flatMap blockBytes

/-- a payload as it is parsed -/
def reader (size : Nat) (vs : List Int64) : Reader := ⟨((blocks size vs).map block).toArray, size, vs.length⟩

theorem pieces_eq {size : Nat} (h : checkBlockSize size = .ok ()) {vs : List Int64} (hvs : isRising vs = true) :
    pieces size vs = .ok ((blocks size vs).flatMap blockPieces) := by
  rw [pieces, h, ← blockwise_eq _ (pos_of_checkBlockSize h)]
  exact if_pos hvs

theorem flatten_pieces (size : Nat) (vs : List Int64) :
    ((blocks size vs).flatMap blockPieces).flatten = payload size vs := by
  unfold payload blockBytes
  induction blocks size vs with
  | nil => rfl
  | cons chunk chunks ih => rw [List.flatMap_cons, List.flatten_append, ih, List.flatMap_cons]

/-- **Parsing.** A payload is parsed as it was written, whatever follows it. -/
theorem takes_read {size : Nat} (hpos : 0 < size) (hsize : size < 2 ^ 32) {vs : List Int64}
    (htable : tabledSize * blockCount size vs.length ≤ memoryLimit) :
    Reading.Takes (Reader.read size vs.length) (payload size vs) (reader size vs) := by
  rw [Reader.read, countBlocks_eq hpos htable, pure_bind, Table.monotone_readBlocks_eq]
  have hblock : ∀ number chunk, chunk.length ≤ size →
      Reading.Takes (Reader.readBlock number chunk.length) (blockBytes chunk) (block chunk) :=
    fun number _ hchunk => takes_readBlock number (Nat.lt_of_le_of_lt hchunk hsize)
  refine (Table.takes_read hpos hblock vs 0 #[]).bind_last ?_
  rw [Array.empty_append]
  exact Reading.takes_pure _

/-- **Reading back.** Every value is read back. -/
theorem get_reader {size : Nat} (hpos : 0 < size) (hsize : size < 2 ^ 32) {vs : List Int64} {i : Nat}
    (h : i < vs.length) : (reader size vs).get i = .ok vs[i] := by
  obtain ⟨chunk, hchunk, hvalue⟩ := exists_block hpos h
  obtain ⟨hinside, hvalue⟩ := List.getElem?_eq_some_iff.1 hvalue
  have hrest : i % size < size := Nat.mod_lt i hpos
  have hlook : (reader size vs).blocks[i / size]? = some (block chunk) := by
    simp [reader, hchunk]
  have hget : Packing.get (block chunk).data (block chunk).width (i % size) =
      .ok (vs[i] - expected (slope chunk) (i % size) - least (errors (slope chunk) chunk)).toUInt64 := by
    rw [← hvalue]
    exact get_block hinside (by omega)
  have hplace : Strict.divMod i (reader size vs).size = .ok (i / size, i % size) := Strict.divMod_eq hpos
  simp only [Reader.get, hplace, bind, Except.bind, hlook, hget]
  exact congrArg Except.ok (add_rest _ _ vs[i])

/-! ## Search -/

theorem isRising_of_rising {vs : List Int64} (h : vs.Pairwise (· ≤ ·)) : isRising vs = true := by
  induction vs with
  | nil => rfl
  | cons a vs ih =>
    cases vs with
    | nil => rfl
    | cons b vs =>
      obtain ⟨hhead, htail⟩ := List.pairwise_cons.1 h
      rw [isRising, ih htail, Bool.and_true, decide_eq_true_eq]
      exact hhead b List.mem_cons_self

theorem compare_lt_iff (a b : Int64) : compare a b = .lt ↔ a < b := by
  change compareOfLessAndEq a b = .lt ↔ a < b
  unfold compareOfLessAndEq
  split_ifs <;> simp_all

theorem compare_eq_iff (a b : Int64) : compare a b = .eq ↔ a = b := by
  change compareOfLessAndEq a b = .eq ↔ a = b
  unfold compareOfLessAndEq
  split_ifs with hlt heq
  · simp only [false_iff]
    exact Int64.ne_of_lt hlt
  · simpa using heq
  · simpa using heq

theorem compare_gt_iff (a b : Int64) : compare a b = .gt ↔ b < a := by
  change compareOfLessAndEq a b = .gt ↔ b < a
  unfold compareOfLessAndEq
  split_ifs with hlt heq
  · simp only [false_iff]
    exact Int64.not_lt.2 (Int64.le_of_lt hlt)
  · simp only [false_iff, heq]
    exact Int64.lt_irrefl
  · simp only [true_iff]
    exact Int64.lt_of_le_of_ne (Int64.not_lt.1 hlt) (Ne.symm heq)

/-- **Searching.** In a rising sequence a search for a target answers, and the answer fits the values written. -/
theorem search_reader {size : Nat} (hpos : 0 < size) (hsize : size < 2 ^ 32) {vs : List Int64}
    (hrising : vs.Pairwise (· ≤ ·)) (target : Int64) :
    ∃ found, (reader size vs).search target = .ok found ∧
      found.Fits (fun i => compare (vs[i]?.getD 0) target) vs.length := by
  have hle : ∀ i j, i ≤ j → j < vs.length → vs[i]?.getD 0 ≤ vs[j]?.getD 0 := by
    intro i j hij hj
    rw [List.getElem?_eq_getElem (by omega), List.getElem?_eq_getElem hj, Option.getD_some, Option.getD_some]
    rcases Nat.eq_or_lt_of_le hij with rfl | hlt
    · exact Int64.le_refl _
    · exact List.pairwise_iff_getElem.1 hrising i j (by omega) hj hlt
  refine search_fits ⟨?_, ?_, ?_⟩
  · intro i hi
    rw [Reader.probe, get_reader hpos hsize hi, List.getElem?_eq_getElem hi]
    rfl
  · intro i j hij hj hlt
    rw [compare_lt_iff] at hlt ⊢
    exact Int64.lt_of_le_of_lt (hle i j hij hj) hlt
  · intro i j hij hj hgt
    rw [compare_gt_iff] at hgt ⊢
    exact Int64.lt_of_lt_of_le hgt (hle i j hij hj)

end ColumnStore.Packing.Monotone
