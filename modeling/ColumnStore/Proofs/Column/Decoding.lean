/-
Each layout of numbers, decoded from the payload that was written for it.

`Decodes entry place payload reader` says that an entry is decoded to a reader wherever its payload stands in a file,
and `NumberReader.Gives r vs` that a reader answers just these values. For every layout there is one result of each
kind:
- `decodes_const`, `decodes_uncompressed`, `decodes_table`, `decodes_delta`;
- `gives_const`, `gives_uncompressed`, `gives_table`, `gives_delta`.
-/
import ColumnStore.Proofs.Column.Plan
import ColumnStore.Proofs.Column.Stats
import ColumnStore.Proofs.Packing.Monotone
import ColumnStore.Column.Reader

namespace ColumnStore.Column

open Packing Storage

/-- wherever this payload stands in a file, the entry is decoded to this reader -/
def Decodes (entry : NumberEntry) (place : Nat) (payload : Bytes) (reader : NumberReader) : Prop :=
  ∀ i : Input, i.Holds place payload → ∃ j, NumberReader.read entry i = .ok reader j ∧ j.data = i.data

/-- a reader that answers these values -/
def NumberReader.Gives (r : NumberReader) (vs : List Int64) : Prop := ∀ i (h : i < vs.length), r.get i = .ok vs[i]

theorem toNat_offset {offset : Nat} (h : offset < 2 ^ 63) : (UInt64.ofNat offset).toNat = offset := by
  rw [UInt64.toNat_ofNat', Nat.mod_eq_of_lt (by omega)]

/-- a reading at the place of an entry -/
theorem read_at {α : Type} {r : Reading α} {bs : Bytes} {a : α} {offset : Nat} {i : Input}
    (hr : Reading.Answers r bs a) (hoffset : offset < 2 ^ 63) (h : i.Holds offset bs) :
    ∃ j, (Reading.seek (UInt64.ofNat offset).toNat >>= fun _ => r) i = .ok a j ∧ j.data = i.data := by
  rw [toNat_offset hoffset]
  exact hr.at h

/-! ## One value -/

theorem decodes_const (value : Int64) (place : Nat) (payload : Bytes) :
    Decodes (.const value) place payload (.const value) :=
  fun i _ => ⟨i, rfl, rfl⟩

theorem gives_const {value : Int64} {vs : List Int64} (h : ∀ v ∈ vs, v = value) :
    (NumberReader.const value).Gives vs := by
  intro i hi
  rw [h vs[i] (List.getElem_mem hi)]
  rfl

/-! ## One byte per value -/

/-- the payload of values that fit a byte -/
def uncompressedBytes (vs : List Int64) : Bytes := vs.map fun v => v.toUInt64.toUInt8

theorem flatten_uncompressed (vs : List Int64) : (Payload.uncompressed vs).flatten = uncompressedBytes vs := by
  unfold Payload.uncompressed uncompressedBytes
  induction vs with
  | nil => rfl
  | cons v vs ih => rw [List.map_cons, List.flatten_cons, ih, List.map_cons, List.singleton_append]

theorem toInt64_byte {v : Int64} (hlow : -128 ≤ v) (hhigh : v ≤ 127) : v.toUInt64.toUInt8.toInt8.toInt64 = v := by
  have hlow := Int64.le_iff_toInt_le.1 hlow
  have hhigh := Int64.le_iff_toInt_le.1 hhigh
  have hbyte : v.toUInt64.toUInt8.toInt8 = v.toInt8 := by
    apply Int8.toBitVec_inj.1
    apply BitVec.eq_of_getLsbD_eq
    intro i hi
    simp [BitVec.getLsbD_signExtend, show i < 64 by omega]
  rw [hbyte]
  apply Int64.toInt_inj.1
  rw [Int8.toInt_toInt64, Int64.toInt_toInt8]
  have hbounds : (-128 : Int64).toInt = -128 ∧ (127 : Int64).toInt = 127 := by decide
  rw [hbounds.1] at hlow
  rw [hbounds.2] at hhigh
  exact Int.bmod_eq_of_le (by omega) (by omega)

theorem decodes_uncompressed {vs : List Int64} {count : UInt32} (hcount : vs.length = count.toNat) {offset : Nat}
    (hoffset : offset < 2 ^ 63) :
    Decodes (.uncompressed count (UInt64.ofNat offset)) offset (uncompressedBytes vs)
      (.uncompressed (Bytes.toByteArray (uncompressedBytes vs))) := by
  intro i h
  have hlen : (uncompressedBytes vs).length = count.toNat := by rw [uncompressedBytes, List.length_map, hcount]
  have hread := (Reading.takes_bytes hlen).map NumberReader.uncompressed
  rw [map_eq_pure_bind] at hread
  exact read_at hread.answers hoffset h

theorem gives_uncompressed {vs : List Int64} (h : ∀ v ∈ vs, -128 ≤ v ∧ v ≤ 127) :
    (NumberReader.uncompressed (Bytes.toByteArray (uncompressedBytes vs))).Gives vs := by
  intro i hi
  have hlen : (uncompressedBytes vs).length = vs.length := List.length_map _
  have hsize : i < (Bytes.toByteArray (uncompressedBytes vs)).size := by
    rw [← Bytes.length_ofArray, Bytes.ofArray_toByteArray, hlen]
    exact hi
  have hbyte : (Bytes.toByteArray (uncompressedBytes vs))[i] = vs[i].toUInt64.toUInt8 := by
    have hget := Bytes.getElem?_ofArray _ hsize
    have hvalue : (uncompressedBytes vs)[i]? = some vs[i].toUInt64.toUInt8 := by simp [uncompressedBytes, hi]
    rw [Bytes.ofArray_toByteArray, hvalue] at hget
    exact (Option.some.inj hget).symm
  obtain ⟨hlow, hhigh⟩ := h vs[i] (List.getElem_mem hi)
  rw [NumberReader.get, dif_pos hsize, hbyte, toInt64_byte hlow hhigh]

/-! ## A table -/

theorem takes_readWords (vs : List Int64) (words : Array Int64) :
    Reading.Takes (readWords vs.length words) (vs.map Bytes.ofInt64).flatten (words ++ vs.toArray) := by
  induction vs generalizing words with
  | nil => simpa [readWords] using Reading.takes_pure words
  | cons v vs ih =>
    rw [List.length_cons, readWords, List.map_cons, List.flatten_cons]
    refine (Reading.takes_int64 v).bind ?_
    have hwords : words ++ (v :: vs).toArray = words.push v ++ vs.toArray := by
      apply Array.toList_inj.1
      simp
    rw [hwords]
    exact ih (words.push v)

theorem takes_readPackedVersion : Reading.Takes readPackedVersion (Varint.encode packedVersion.toNat) () := by
  refine (Reading.takes_varint32 packedVersion).bind_last ?_
  rw [if_neg (by simp)]
  exact Reading.takes_pure ()

/-- the ordinal of a value in a table; of any other value it is zero -/
def ordinalOf (m : Distinct) (v : Int64) : Nat := (m.ordinals.find v).getD 0

/-- the ordinals of a column, as the words of its table -/
def ordinalWords (m : Distinct) (vs : List Int64) : List UInt64 := vs.map fun v => UInt64.ofNat (ordinalOf m v)

def tableBytes (m : Distinct) (width : Nat) (vs : List Int64) : Bytes :=
  Varint.encode packedVersion.toNat ++ (Varint.encode (2 ^ width) ++
    (((Payload.tableValues m width).map Bytes.ofInt64).flatten ++ (Varint.encode packedFormat.toNat ++
      (Varint.encode width ++ FixedWidth.payload width (ordinalWords m vs)))))

section Table

variable {m : Distinct} {width : Nat} {vs : List Int64}

theorem ordinalOf_spec {v : Int64} (h : v ∈ m.decodeTable) :
    m.ordinal v = .ok (ordinalOf m v) ∧ ordinalOf m v < m.size ∧ m.decodeTable[ordinalOf m v]? = some v := by
  obtain ⟨i, hi, hlt, hplace⟩ := Distinct.ordinal_ok h
  have heq : ordinalOf m v = i := by rw [ordinalOf, (m.decodeTable_iff v i).1 hplace]; rfl
  rw [heq]
  exact ⟨hi, hlt, hplace⟩

theorem mapM_ordinal (h : ∀ v ∈ vs, v ∈ m.decodeTable) : vs.mapM m.ordinal = .ok (vs.map (ordinalOf m)) := by
  induction vs with
  | nil => rfl
  | cons v vs ih =>
    have hhead := (ordinalOf_spec (h v List.mem_cons_self)).1
    have htail := ih fun w hw => h w (List.mem_cons_of_mem v hw)
    rw [List.mapM_cons, hhead, htail]
    rfl

theorem ordinalWords_lt (hsize : m.size ≤ 2 ^ width)
    (h : ∀ v ∈ vs, v ∈ m.decodeTable) : ∀ w ∈ ordinalWords m vs, w.toNat < 2 ^ width := by
  intro w hw
  obtain ⟨v, hv, rfl⟩ := List.mem_map.1 hw
  have hlt := (ordinalOf_spec (h v hv)).2.1
  exact lt_of_le_of_lt (by rw [UInt64.toNat_ofNat']; exact Nat.mod_le _ _) (lt_of_lt_of_le hlt hsize)

def tablePieces (m : Distinct) (width : Nat) (vs : List Int64) : List Bytes :=
  Varint.pieces packedVersion.toNat ++ Varint.pieces (2 ^ width) ++ (Payload.tableValues m width).map Bytes.ofInt64
    ++ Varint.pieces packedFormat.toNat ++ Varint.pieces width
    ++ (blocks (FixedWidth.perWord width) (ordinalWords m vs)).map (FixedWidth.wordBytes width)

theorem table_eq (hwidth : FixedWidth.isSupported width = true) (hsize : m.size ≤ 2 ^ width)
    (h : ∀ v ∈ vs, v ∈ m.decodeTable) : Payload.table m width vs = .ok (tablePieces m width vs) := by
  have hwords : (vs.map (ordinalOf m)).map UInt64.ofNat = ordinalWords m vs := by simp [ordinalWords]
  have hpacked := FixedWidth.pieces_eq hwidth (ordinalWords_lt hsize h)
  unfold Payload.table
  rw [mapM_ordinal h]
  simp only [bind, Except.bind, hwords, hpacked, Nat.one_shiftLeft]
  rfl

theorem flatten_tablePieces : (tablePieces m width vs).flatten = tableBytes m width vs := by
  simp [tablePieces, tableBytes, FixedWidth.payload]

theorem length_tableValues (hsize : m.size ≤ 2 ^ width) : (Payload.tableValues m width).length = 2 ^ width := by
  rw [Payload.tableValues, List.length_append, List.length_replicate, Distinct.length_decodeTable, Nat.one_shiftLeft]
  omega

def tableReader (m : Distinct) (width : Nat) (vs : List Int64) : NumberReader :=
  .table (Payload.tableValues m width).toArray
    ⟨Bytes.toByteArray (FixedWidth.payload width (ordinalWords m vs)), width, vs.length⟩

/-- the sizes that a table can have are those of its widths -/
theorem tableSize_ok (hwidth : FixedWidth.isSupported width = true) :
    ∃ size w : UInt32, size.toNat = 2 ^ width ∧ w.toNat = width ∧ isTableSize size = true ∧ ¬ 8 < w := by
  rcases FixedWidth.supported_cases hwidth with rfl | rfl | rfl | rfl
  · exact ⟨2, 1, by decide⟩
  · exact ⟨4, 2, by decide⟩
  · exact ⟨16, 4, by decide⟩
  · exact ⟨256, 8, by decide⟩

theorem answers_ordinals (hwidth : FixedWidth.isSupported width = true) (words : List UInt64) (values : Array Int64) :
    Reading.Answers (do
      let rest ← Reading.bytes (← get).remaining
      match FixedWidth.Reader.ofBytes rest width words.length with
      | .ok ordinals => return NumberReader.table values ordinals
      | .error e => throw e)
      (FixedWidth.payload width words)
      (.table values ⟨Bytes.toByteArray (FixedWidth.payload width words), width, words.length⟩) := by
  intro i h
  obtain ⟨rest, hrest⟩ := Reading.bytes_remaining h
  have hget : (get : Reading Input) i = .ok i i := rfl
  rw [Reading.bind_ok hget, Reading.bind_ok hrest, FixedWidth.Reader.ofBytes_payload hwidth]
  exact ⟨_, rfl, rfl⟩

theorem answers_readTable (vs : List Int64) (hwidth : FixedWidth.isSupported width = true) (hsize : m.size ≤ 2 ^ width) :
    Reading.Answers (readTable vs.length) (tableBytes m width vs) (tableReader m width vs) := by
  obtain ⟨size, w, hpow, hw, htable, hle⟩ := tableSize_ok hwidth
  obtain ⟨number, hshift, hnumber⟩ := Strict.shiftUp_one (Nat.lt_of_le_of_lt (FixedWidth.width_le hwidth) (by decide))
  have hwords := length_tableValues hsize
  have hlen : (ordinalWords m vs).length = vs.length := List.length_map _
  have hordinals := answers_ordinals hwidth (ordinalWords m vs) (Payload.tableValues m width).toArray
  rw [hlen] at hordinals
  rw [tableBytes, ← hpow, readTable]
  refine takes_readPackedVersion.bind_answers ?_
  refine (Reading.takes_varint32 size).bind_answers ?_
  simp only [htable, Bool.not_true, Bool.false_eq_true, if_false]
  rw [hpow, ← hwords]
  refine (takes_readWords _ #[]).bind_answers ?_
  refine (Reading.takes_varint32 packedFormat).bind_answers ?_
  rw [if_neg (by simp), ← hw]
  refine (Reading.takes_varint32 w).bind_answers ?_
  rw [hw, if_neg hle, hshift, Reading.lift_ok, pure_bind, if_neg (by simp [hnumber, hwords, Nat.one_shiftLeft]),
    Array.empty_append]
  exact hordinals

theorem decodes_table {count : UInt32} (hcount : vs.length = count.toNat) (hwidth : FixedWidth.isSupported width = true)
    (hsize : m.size ≤ 2 ^ width) {offset : Nat} (hoffset : offset < 2 ^ 63) :
    Decodes (.table count (UInt64.ofNat offset)) offset (tableBytes m width vs) (tableReader m width vs) := by
  intro i h
  have hread := answers_readTable vs hwidth hsize
  rw [hcount] at hread
  exact read_at hread hoffset h

theorem gives_table (hwidth : FixedWidth.isSupported width = true) (hsize : m.size ≤ 2 ^ width)
    (h : ∀ v ∈ vs, v ∈ m.decodeTable) : (tableReader m width vs).Gives vs := by
  intro i hi
  obtain ⟨-, hlt, hplace⟩ := ordinalOf_spec (h vs[i] (List.getElem_mem hi))
  have hlen : (ordinalWords m vs).length = vs.length := List.length_map _
  have hinside : i < (ordinalWords m vs).length := by rwa [hlen]
  have hget := FixedWidth.Reader.get_payload hwidth (ordinalWords_lt hsize h) i hinside
  have hword : (ordinalWords m vs)[i] = UInt64.ofNat (ordinalOf m vs[i]) := by simp [ordinalWords]
  have hnat : (UInt64.ofNat (ordinalOf m vs[i])).toNat = ordinalOf m vs[i] := by
    have hle : 2 ^ width ≤ 2 ^ 8 := by
      rcases FixedWidth.supported_cases hwidth with rfl | rfl | rfl | rfl <;> decide
    rw [UInt64.toNat_ofNat', Nat.mod_eq_of_lt (by omega)]
  have hvalue : (Payload.tableValues m width).toArray[ordinalOf m vs[i]]? = some vs[i] := by
    rw [List.getElem?_toArray, Payload.tableValues, List.getElem?_append_left]
    · exact hplace
    · rwa [Distinct.length_decodeTable]
  rw [hword, hlen] at hget
  simp only [tableReader, NumberReader.get, hget, hnat, hvalue]

end Table

/-! ## Offsets in blocks -/

theorem blockSize_ok : checkBlockSize blockSize = .ok () := by decide

theorem blockSize_pos : 0 < blockSize := by decide

theorem blockSize_lt : blockSize < 2 ^ 32 := by decide

theorem takes_readBlockSize : Reading.Takes readBlockSize Payload.blockHead.flatten blockSize := by
  have hhead : Payload.blockHead.flatten = Varint.encode packedVersion.toNat ++ Varint.encode (16384 : UInt32).toNat := by
    simp [Payload.blockHead, blockSize]
  rw [hhead]
  refine takes_readPackedVersion.bind ?_
  exact (Reading.takes_varint32 16384).bind_last (Reading.takes_pure _)

/-- the payload of offsets in blocks -/
def deltaBytes (vs : List Int64) : Bytes := Payload.blockHead.flatten ++ Delta.payload blockSize vs

theorem delta_eq (vs : List Int64) :
    ∃ pieces, Payload.delta vs = .ok pieces ∧ pieces.flatten = deltaBytes vs := by
  refine ⟨Payload.blockHead ++ (blocks blockSize vs).flatMap Delta.blockPieces, ?_, ?_⟩
  · rw [Payload.delta, Delta.pieces_eq blockSize_ok]
    rfl
  · rw [List.flatten_append, Delta.flatten_pieces, deltaBytes]

theorem decodes_delta {vs : List Int64} {count : UInt32} (hcount : vs.length = count.toNat) {offset : Nat}
    (hoffset : offset < 2 ^ 63) :
    Decodes (.delta count (UInt64.ofNat offset)) offset (deltaBytes vs) (.delta (Delta.reader blockSize vs)) := by
  intro i h
  have hlen : vs.length < 2 ^ 57 := by have := count.toNat_lt; omega
  have hread := (Delta.takes_read blockSize_pos blockSize_lt (table_fits _ hlen)).map NumberReader.delta
  rw [map_eq_pure_bind, hcount] at hread
  exact read_at (takes_readBlockSize.bind hread).answers hoffset h

theorem gives_delta (vs : List Int64) : (NumberReader.delta (Delta.reader blockSize vs)).Gives vs :=
  fun _ hi => Delta.get_reader blockSize_pos blockSize_lt hi

end ColumnStore.Column
