/-
How long a column of numbers gets.

A value takes at most eight bytes and its share of what a block or a word starts with, so a payload is linear in the
number of values (`length_data_le`), and what the metadata file says about a column is bounded (`length_metadata_le`).
Offsets of all columns that hold one value per document are therefore far below their limit.
-/
import ColumnStore.Proofs.Column.Numbers

namespace ColumnStore.Column

open Packing Storage

/-! ## Pieces -/

theorem length_encode_word (w : UInt64) : (Varint.encode w.toNat).length ≤ 10 :=
  Varint.length_encode_le (by decide) (lt_of_lt_of_le w.toNat_lt (by decide))

theorem length_encode_count {n : Nat} (h : n < 2 ^ 32) : (Varint.encode n).length ≤ 5 :=
  Varint.length_encode_le (by decide) (lt_of_lt_of_le h (by decide))

theorem length_pack_le {width : Nat} (hwidth : width ≤ 64) (ws : List UInt64) :
    (pack width ws).length ≤ 8 * ws.length := by
  have hbits : ws.length * width ≤ ws.length * 64 := Nat.mul_le_mul_left _ hwidth
  rw [length_pack, packedLength]
  omega

/-- what is written block by block is linear in the number of values -/
theorem length_blocks_le {size : Nat} {bytes : List Int64 → Bytes} (hsize : 0 < size)
    (h : ∀ chunk, (bytes chunk).length ≤ 15 + 8 * chunk.length) (vs : List Int64) :
    ((blocks size vs).flatMap bytes).length ≤ 23 * vs.length := by
  fun_induction blocks size vs with
  | case1 => simp
  | case2 v vs ih =>
    have hchunk := h (v :: vs.take (size - 1))
    rw [List.flatMap_cons, List.length_append, List.length_cons]
    rw [List.length_cons, List.length_take] at hchunk
    rw [List.length_drop] at ih
    omega

theorem length_deltaBlock_le (vs : List Int64) : (Delta.blockBytes vs).length ≤ 15 + 8 * vs.length := by
  have hbase : (Delta.baseBytes (least vs)).length ≤ 10 := by
    unfold Delta.baseBytes
    split
    · simp
    · exact length_encode_word _
  have hpack := length_pack_le (Delta.width_le vs) (vs.map (Delta.offset (least vs)))
  rw [List.length_map] at hpack
  rw [Delta.blockBytes_eq, List.length_append, List.length_append, List.length_singleton]
  omega

theorem length_monotoneBlock_le (vs : List Int64) : (Monotone.blockBytes vs).length ≤ 15 + 8 * vs.length := by
  have hbase := length_encode_word (ZigZag.encode (least (Monotone.errors (Monotone.slope vs) vs)))
  have hpack := length_pack_le (Monotone.width_le vs) (Monotone.rests vs)
  rw [Monotone.length_rests] at hpack
  rw [Monotone.blockBytes_eq, List.length_append, List.length_append, List.length_append, List.length_singleton,
    Bytes.ofUInt32, Bytes.length_littleEndian]
  omega

theorem length_blockHead_le : Payload.blockHead.flatten.length ≤ 15 := by
  have hversion := length_encode_count (n := packedVersion.toNat) (by decide)
  have hsize := length_encode_count (n := blockSize) (by decide)
  simp only [Payload.blockHead, List.flatten_append, Varint.flatten_pieces, List.length_append]
  omega

/-! ## Payloads -/

theorem length_deltaBytes_le (vs : List Int64) : (deltaBytes vs).length ≤ 15 + 23 * vs.length := by
  have hblocks := length_blocks_le blockSize_pos length_deltaBlock_le vs
  have hhead := length_blockHead_le
  rw [deltaBytes, List.length_append, Delta.payload]
  omega

theorem length_documentBytes_le (vs : List Int64) : (documentBytes vs).length ≤ 15 + 23 * (presentValues vs).length := by
  have hblocks := length_blocks_le blockSize_pos length_monotoneBlock_le (documentWords vs)
  have hhead := length_blockHead_le
  rw [length_documentWords] at hblocks
  rw [documentBytes, List.length_append, Monotone.payload]
  omega

theorem length_flatten_words (vs : List Int64) : (vs.map Bytes.ofInt64).flatten.length = 8 * vs.length := by
  induction vs with
  | nil => rfl
  | cons v vs ih =>
    rw [List.map_cons, List.flatten_cons, List.length_append, ih, List.length_cons, Bytes.ofInt64, Bytes.ofUInt64,
      Bytes.length_littleEndian]
    omega

theorem length_tableBytes_le {m : Distinct} {width : Nat} (vs : List Int64)
    (hwidth : FixedWidth.isSupported width = true) (hsize : m.size ≤ 2 ^ width) :
    (tableBytes m width vs).length ≤ 2100 + 8 * vs.length := by
  have hversion := length_encode_count (n := packedVersion.toNat) (by decide)
  have hformat := length_encode_count (n := packedFormat.toNat) (by decide)
  have hpow : 2 ^ width ≤ 256 ∧ width ≤ 8 := by
    rcases FixedWidth.supported_cases hwidth with rfl | rfl | rfl | rfl <;> decide
  have htable := length_encode_count (n := 2 ^ width) (by omega)
  have hbits := length_encode_count (n := width) (by omega)
  have hpayload : FixedWidth.byteLength vs.length width ≤ 8 * vs.length + 8 := by
    have hpos := FixedWidth.perWord_pos hwidth
    have hle : (vs.length + FixedWidth.perWord width - 1) / FixedWidth.perWord width ≤ vs.length + 1 := by
      apply Nat.div_le_of_le_mul
      obtain ⟨k, hk⟩ : ∃ k, FixedWidth.perWord width = k + 1 := ⟨FixedWidth.perWord width - 1, by omega⟩
      rw [hk, Nat.add_mul, Nat.mul_add]
      have := Nat.zero_le (k * vs.length)
      omega
    rw [FixedWidth.byteLength]
    omega
  have hwords : (ordinalWords m vs).length = vs.length := List.length_map _
  simp only [tableBytes, List.length_append, length_flatten_words, length_tableValues hsize,
    FixedWidth.length_payload hwidth, hwords]
  omega

/-! ## Columns -/

variable (field : FieldNumber) (name : String) (documents : Option UInt32) (offset : Nat) (vs : List Int64)

/-- **Linear size.** The payload of a column is linear in the number of its values. -/
theorem length_data_le (hlen : vs.length < 2 ^ 32) (hdocuments : checkLength name vs.length documents = .ok ()) :
    ((planNumbers field name documents offset (vs.map some)).bytes .data).length ≤ 2100 + 64 * vs.length := by
  induction hn : vs.length using Nat.strongRecOn generalizing documents offset vs with
  | _ n ih =>
    subst hn
    obtain ⟨body, hplan, hcase⟩ := planNumbers_cases field name documents hlen hdocuments
    rw [hplan offset]
    rcases hcase with ⟨value, -, rfl⟩ | ⟨pieces, hsparse, hflat, rfl⟩ | ⟨-, layout, pieces, rfl, hcase⟩
    · simp
    · have hshort := length_presentValues_lt hsparse
      have hnested := ih _ (by omega) none (offset + (documentBytes vs).length) (presentValues vs) (by omega) rfl rfl
      have hdocuments := length_documentBytes_le vs
      have hmany := hsparse.1
      simp only [Plan.bytes_data_after_metadata, Plan.bytes_after_same, Plan.bytes_within, hflat, List.length_append]
      unfold maxTableValues at hmany
      omega
    · simp only [Plan.bytes_data_after_metadata, Plan.bytes_after_same, Plan.bytes_settle, List.append_nil]
      rcases hcase with ⟨-, rfl, -⟩ | ⟨-, m, width, rfl, hwidth, hsize, -⟩ | ⟨-, hflat⟩
      · rw [flatten_uncompressed, uncompressedBytes, List.length_map]
        omega
      · have := length_tableBytes_le vs hwidth hsize
        rw [flatten_tablePieces]
        omega
      · have := length_deltaBytes_le vs
        rw [hflat]
        omega

theorem length_entryBytes_le {count : Nat} (h : count < 2 ^ 32) (layout : Layout) (offset : Nat) :
    (entryBytes count layout offset).length ≤ 14 := by
  have hcount := length_encode_count h
  simp only [entryBytes_eq, List.length_append, List.length_singleton, Bytes.ofUInt64, Bytes.length_littleEndian]
  omega

theorem length_constBytes_le (value : Int64) : (constBytes value).length ≤ 14 := by
  have hcount := length_encode_count (n := 0) (by decide)
  simp only [constBytes_eq, List.length_append, List.length_singleton, Bytes.ofInt64, Bytes.ofUInt64,
    Bytes.length_littleEndian]
  omega

/-- what the metadata file says about a column is bounded -/
theorem length_metadata_le (hlen : vs.length < 2 ^ 32) (hdocuments : checkLength name vs.length documents = .ok ()) :
    ((planNumbers field name documents offset (vs.map some)).bytes .metadata).length ≤ if Sparse vs then 38 else 19 := by
  have hfield := length_encode_count field.toNat_lt
  induction hn : vs.length using Nat.strongRecOn generalizing documents offset vs with
  | _ n ih =>
    subst hn
    obtain ⟨body, hplan, hcase⟩ := planNumbers_cases field name documents hlen hdocuments
    rw [hplan offset]
    simp only [Plan.bytes_after_same, List.length_append, Varint.flatten_pieces]
    rcases hcase with ⟨value, hall, rfl⟩ | ⟨pieces, hsparse, hflat, rfl⟩ | ⟨hdense, layout, pieces, rfl, -⟩
    · have hentry : (constPieces value).flatten.length ≤ 14 := length_constBytes_le value
      rw [if_neg (not_sparse_of_const hall), Plan.bytes_after_same, Plan.bytes_settle, List.append_nil]
      omega
    · have hshort := length_presentValues_lt hsparse
      have hentry : (entryPieces (presentValues vs).length .indirect offset).flatten.length ≤ 14 :=
        length_entryBytes_le (by omega) _ _
      have hnested := ih _ (by omega) none (offset + (documentBytes vs).length) (presentValues vs) (by omega) rfl rfl
      rw [if_neg (not_sparse_presentValues vs)] at hnested
      rw [if_pos hsparse, Plan.bytes_after_same, Plan.bytes_metadata_after_data, Plan.bytes_within, List.length_append]
      omega
    · have hentry : (entryPieces vs.length layout offset).flatten.length ≤ 14 := length_entryBytes_le hlen _ _
      rw [if_neg hdense, Plan.bytes_after_same, Plan.bytes_metadata_after_data, Plan.bytes_settle, List.append_nil]
      omega

end ColumnStore.Column
