/-
Block-delta packing: what is written is what is read.

- `takes_readBlock`: a block is parsed from the bytes that were written for it;
- `takes_read`: so is the whole payload, whatever follows it;
- `get_reader`: every value is read back, because an offset never needs more bits than the greatest one.
-/
import ColumnStore.Proofs.Packing.Blocks

namespace ColumnStore.Packing.Delta

open Storage

/-! ## One block -/

theorem offset_lt {vs : List Int64} {v : Int64} (h : v ∈ vs) : (offset (least vs) v).toNat < 2 ^ width vs := by
  have hlow := least_le h
  have hhigh := le_greatest h
  have hv := toNat_offset hlow
  have hmost := toNat_offset (Int64.le_trans hlow hhigh)
  have hle := Int64.le_iff_toInt_le.1 hhigh
  exact lt_of_le_bitsNeeded (by omega)

theorem width_le (vs : List Int64) : width vs ≤ 64 := bitsNeeded_le _

/-- the token of a block states its width, and whether its base is left out -/
theorem token_parts {width : Nat} (h : width ≤ 64) (zero : Bool) :
    let token := UInt8.ofNat (2 * width + if zero then 1 else 0)
    token.toNat / 2 = width ∧ (token &&& 1 ≠ 0 ↔ zero = true) := by
  have hall : ∀ w : Fin 65, ∀ zero : Bool, (UInt8.ofNat (2 * w.val + if zero then 1 else 0)).toNat / 2 = w.val ∧
      (UInt8.ofNat (2 * w.val + if zero then 1 else 0) &&& 1 ≠ 0 ↔ zero = true) := by decide
  exact hall ⟨width, by omega⟩ zero

def blockBytes (vs : List Int64) : Bytes := (blockPieces vs).flatten

/-- a block as it is parsed -/
def block (vs : List Int64) : Block where
  base := least vs
  width := width vs
  data := Bytes.toByteArray (pack (width vs) (vs.map (offset (least vs))))

theorem pack_zero (ws : List UInt64) : pack 0 ws = [] := by
  apply List.length_eq_zero_iff.1
  rw [length_pack, packedLength]
  omega

/-- the base after the token, unless it is zero -/
def baseBytes (base : Int64) : Bytes := if base = 0 then [] else Varint.encode (ZigZag.encode base - 1).toNat

theorem blockBytes_eq (vs : List Int64) :
    blockBytes vs = [UInt8.ofNat (2 * width vs + if decide (least vs = 0) then 1 else 0)] ++
      (baseBytes (least vs) ++ pack (width vs) (vs.map (offset (least vs)))) := by
  have hbase : (if least vs = 0 then [] else Varint.pieces (ZigZag.encode (least vs) - 1).toNat).flatten =
      baseBytes (least vs) := by
    unfold baseBytes
    split
    · rfl
    · exact Varint.flatten_pieces _
  have hdata : (if width vs = 0 then [] else [pack (width vs) (vs.map (offset (least vs)))]).flatten =
      pack (width vs) (vs.map (offset (least vs))) := by
    split
    · next h => rw [h, pack_zero]; rfl
    · simp
  simp only [blockBytes, blockPieces, List.flatten_append, hbase, hdata, decide_eq_true_eq]
  simp

theorem takes_base (base : Int64) (token : UInt8) (h : token &&& 1 ≠ 0 ↔ decide (base = 0) = true) :
    Reading.Takes (if token &&& 1 ≠ 0 then pure 0 else (fun w => ZigZag.decode (w + 1)) <$> Reading.varint)
      (baseBytes base) base := by
  by_cases hzero : base = 0
  · rw [if_pos (h.2 (by simpa using hzero)), baseBytes, if_pos hzero, hzero]
    exact Reading.takes_pure 0
  · rw [if_neg (fun hc => hzero (by simpa using h.1 hc)), baseBytes, if_neg hzero]
    have hback : ZigZag.decode (UInt64.ofNat (ZigZag.encode base - 1).toNat + 1) = base := by
      rw [UInt64.ofNat_toNat, UInt64.sub_add_cancel, ZigZag.decode_encode]
    have := (Reading.takes_varint (ZigZag.encode base - 1).toNat_lt).map fun w => ZigZag.decode (w + 1)
    rwa [hback] at this

theorem takes_readBlock (number : Nat) {vs : List Int64} (hcount : vs.length < 2 ^ 32) :
    Reading.Takes (Reader.readBlock number vs.length) (blockBytes vs) (block vs) := by
  obtain ⟨hwidth, hbase⟩ := token_parts (width_le vs) (decide (least vs = 0))
  have hdata : (pack (width vs) (vs.map (offset (least vs)))).length = packedLength vs.length (width vs) := by
    rw [length_pack, List.length_map]
  rw [blockBytes_eq]
  generalize UInt8.ofNat (2 * width vs + if decide (least vs = 0) then 1 else 0) = token at hwidth hbase ⊢
  refine (Reading.takes_byte token).bind ?_
  simp only [hwidth, packedLength?_eq hcount (width_le vs), Reading.lift_ok, pure_bind]
  rw [if_neg (by have := width_le vs; omega)]
  -- the base is read by either branch, with the data after it
  have hlast : Reading.Takes
      ((if token &&& 1 ≠ 0 then pure 0 else (fun w => ZigZag.decode (w + 1)) <$> Reading.varint) >>= fun base => do
        let data ← Reading.bytes (packedLength vs.length (width vs))
        pure (⟨base, width vs, data⟩ : Block))
      (baseBytes (least vs) ++ pack (width vs) (vs.map (offset (least vs)))) (block vs) :=
    (takes_base (least vs) token hbase).bind ((Reading.takes_bytes hdata).bind_last (Reading.takes_pure _))
  split
  · next h => rwa [if_pos h] at hlast
  · next h => rwa [if_neg h] at hlast

/-- a block answers the offsets that it was made of -/
theorem get_block {vs : List Int64} {i : Nat} (h : i < vs.length) (hplace : i * 64 < 2 ^ 64) :
    Packing.get (block vs).data (block vs).width i = .ok (offset (least vs) vs[i]) := by
  have hwidth := width_le vs
  have hfit : i * width vs < 2 ^ 64 := lt_of_le_of_lt (Nat.mul_le_mul_left i hwidth) hplace
  have hget := get_pack hwidth (vs.map (offset (least vs))) i (by simpa using h) hfit
  rwa [List.getElem_map, Nat.mod_eq_of_lt (offset_lt (List.getElem_mem h)), UInt64.ofNat_toNat] at hget

theorem add_offset (base v : Int64) : (base.toUInt64 + offset base v).toInt64 = v := by
  rw [offset, UInt64.add_comm, UInt64.sub_add_cancel]
  rfl

/-! ## All blocks -/

def payload (size : Nat) (vs : List Int64) : Bytes := (blocks size vs).flatMap blockBytes

/-- a payload as it is parsed -/
def reader (size : Nat) (vs : List Int64) : Reader := ⟨((blocks size vs).map block).toArray, size, vs.length⟩

theorem pieces_eq {size : Nat} (h : checkBlockSize size = .ok ()) (vs : List Int64) :
    pieces size vs = .ok ((blocks size vs).flatMap blockPieces) := by
  rw [pieces, h, ← blockwise_eq _ (pos_of_checkBlockSize h)]

theorem flatten_pieces (size : Nat) (vs : List Int64) :
    ((blocks size vs).flatMap blockPieces).flatten = payload size vs := by
  unfold payload blockBytes
  induction blocks size vs with
  | nil => rfl
  | cons chunk chunks ih => rw [List.flatMap_cons, List.flatten_append, ih, List.flatMap_cons]

/-- **Parsing.** A payload is parsed as it was written, whatever follows it. -/
theorem takes_read {size : Nat} (hpos : 0 < size) (hsize : size < 2 ^ 32) {vs : List Int64}
    (htable : tabledSize * blockCount size vs.length ≤ memoryLimit) :
    Reading.Takes (Reader.read size vs.length) (payload size vs) (reader size vs) := by
  rw [Reader.read, countBlocks_eq hpos htable, pure_bind, Table.delta_readBlocks_eq]
  have hblock : ∀ number chunk, chunk.length ≤ size →
      Reading.Takes (Reader.readBlock number chunk.length) (blockBytes chunk) (block chunk) :=
    fun number _ hchunk => takes_readBlock number (Nat.lt_of_le_of_lt hchunk hsize)
  refine (Table.takes_read hpos hblock vs 0 #[]).bind_last ?_
  rw [Array.empty_append]
  exact Reading.takes_pure _

/-- **Reading back.** Every value is read back. -/
theorem get_reader {size : Nat} (hpos : 0 < size) (hsize : size < 2 ^ 32) {vs : List Int64} {i : Nat}
    (h : i < vs.length) : (reader size vs).get i = .ok vs[i] := by
  obtain ⟨chunk, hchunk, hvalue⟩ := exists_block hpos h
  obtain ⟨hinside, hvalue⟩ := List.getElem?_eq_some_iff.1 hvalue
  have hrest : i % size < size := Nat.mod_lt i hpos
  have hlook : (reader size vs).blocks[i / size]? = some (block chunk) := by
    simp [reader, hchunk]
  have hget : Packing.get (block chunk).data (block chunk).width (i % size) =
      .ok (offset (least chunk) vs[i]) := by
    rw [← hvalue]
    exact get_block hinside (by omega)
  have hplace : Strict.divMod i (reader size vs).size = .ok (i / size, i % size) := Strict.divMod_eq hpos
  simp only [Reader.get, hplace, bind, Except.bind, hlook, hget]
  exact congrArg Except.ok (add_offset (least chunk) vs[i])

end ColumnStore.Packing.Delta
