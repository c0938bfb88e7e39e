/-
Columns that come from nowhere in particular.

An entry that covers its documents is decoded to a reader that has an answer for each of them, or the file is corrupt
(`NumberReader.checked_read`). The invariant goes down the nested entry: what is found among the documents of a sparse
column lies below their number, and so within the column nested in it. Sources are put together from such readers, and
answer every request without breaking a precondition (`Source.Sound`, `SortedSource.Sound`).
-/
import ColumnStore.Proofs.Column.Parsing
import ColumnStore.Proofs.Packing.Safety

namespace ColumnStore

open Storage Storage.Reading

/-! ## Searching -/

/-- a search over guarded probes finds no place past the end -/
theorem guarded_searchBetween {probe : Nat → Except Error Ordering} {count : Nat}
    (h : ∀ i, i < count → Guarded (probe i) fun _ => True) (low high : Nat) (hhigh : high ≤ count) :
    Guarded (searchBetween probe low high) fun found => ∀ i, found = .here i → i < count := by
  induction hn : high - low using Nat.strongRecOn generalizing low high with
  | _ n ih =>
    rw [searchBetween]
    split_ifs with hopen
    · have hmiddle : low + (high - low) / 2 < high := by omega
      have hprobe := h (low + (high - low) / 2) (by omega)
      dsimp only
      cases hcase : probe (low + (high - low) / 2) with
      | error e =>
        rw [hcase] at hprobe
        exact hprobe
      | ok order =>
        cases order with
        | lt => exact ih (high - (low + (high - low) / 2 + 1)) (by omega) _ high hhigh rfl
        | gt => exact ih (low + (high - low) / 2 - low) (by omega) low _ (by omega) rfl
        | eq =>
          refine Guarded.ok ?_
          rintro i ⟨⟩
          omega
    · refine Guarded.ok ?_
      rintro i ⟨⟩

theorem guarded_search {probe : Nat → Except Error Ordering} {count : Nat}
    (h : ∀ i, i < count → Guarded (probe i) fun _ => True) :
    Guarded (search probe count) fun found => ∀ i, found = .here i → i < count :=
  guarded_searchBetween h 0 count (le_refl _)

namespace Column

open Packing

/-! ## Numbers -/

/-- the reader has an answer for every index below `count` -/
def NumberReader.Serves (r : NumberReader) (count : Nat) : Prop := ∀ i, i < count → Guarded (r.get i) fun _ => True

theorem checked_readPackedVersion : Checked readPackedVersion fun _ => True := by
  refine checked_varint32.bind fun found _ => ?_
  split_ifs
  · exact checked_corrupt _
  · exact checked_pure trivial

theorem checked_readBlockSize : Checked readBlockSize fun size => size < 2 ^ 32 :=
  checked_readPackedVersion.bind fun _ _ => checked_varint32.bind fun size _ => checked_pure size.toNat_lt

theorem checked_readWords (count : Nat) (words : Array Int64) :
    Checked (readWords count words) fun read => read.size = words.size + count := by
  induction count generalizing words with
  | zero => exact checked_pure rfl
  | succ count ih =>
    refine checked_int64.bind fun word _ => (ih (words.push word)).mono fun read hread => ?_
    rw [hread, Array.size_push]
    omega

/-- a table has a value for every ordinal that its width can hold -/
theorem serves_table {values : Array Int64} {ordinals : FixedWidth.Reader} {width count : Nat}
    (hsize : values.size = 2 ^ width) (h : ordinals.Sound width count) :
    (NumberReader.table values ordinals).Serves count := by
  intro i hi
  have hget := FixedWidth.Reader.guarded_get h hi
  unfold NumberReader.get
  cases hcase : ordinals.get i with
  | error e =>
    rw [hcase] at hget
    exact hget
  | ok ordinal =>
    rw [hcase] at hget
    have hplace : ordinal.toNat < values.size := hsize ▸ hget
    dsimp only
    rw [Array.getElem?_eq_getElem hplace]
    trivial

/-- a sparse column has a value for every index, if its documents have places and the places have values -/
theorem serves_indirect {documents : Monotone.Reader} {nested : NumberReader} (hnested : nested.Serves documents.length)
    (h : ∀ i, i < documents.length → Guarded (documents.get i) fun _ => True) (count : Nat) :
    (NumberReader.indirect documents nested).Serves count := by
  intro i _
  have hsearch : Guarded (documents.search (Int64.ofNat i)) fun found =>
      ∀ k, found = .here k → k < documents.length :=
    guarded_search fun k hk => (h k hk).map fun _ _ => trivial
  unfold NumberReader.get
  cases hcase : documents.search (Int64.ofNat i) with
  | error e =>
    rw [hcase] at hsearch
    exact hsearch
  | ok found =>
    rw [hcase] at hsearch
    cases found with
    | here k => exact hnested k (hsearch k rfl)
    | before k => trivial

theorem checked_readTable (count : Nat) : Checked (readTable count) fun r => r.Serves count := by
  refine checked_readPackedVersion.bind fun _ _ => ?_
  refine checked_varint32.bind fun size _ => ?_
  split_ifs
  · exact checked_corrupt_bind _ _
  refine (checked_readWords size.toNat #[]).bind fun values hvalues => ?_
  refine checked_varint32.bind fun format _ => ?_
  split_ifs
  · exact checked_corrupt_bind _ _
  refine checked_varint32.bind fun width _ => ?_
  split_ifs with hwide
  · exact checked_corrupt_bind _ _
  have hwidth : width.toNat ≤ 8 := UInt32.le_iff_toNat_le.1 (UInt32.not_lt.1 hwide)
  obtain ⟨number, hshift, hnumber⟩ := Strict.shiftUp_one (Nat.lt_of_le_of_lt hwidth (by decide))
  rw [hshift, lift_ok, pure_bind]
  split_ifs with hfits
  · exact checked_corrupt_bind _ _
  refine checked_get.bind fun i _ => ?_
  refine (checked_bytes i.remaining).bind fun rest _ => ?_
  have hsize : values.size = 2 ^ width.toNat := by
    rw [hvalues, ← Nat.one_shiftLeft, ← hnumber, not_not.1 hfits]
    simp
  rcases FixedWidth.Reader.ofBytes_cases rest width.toNat count with ⟨ordinals, hordinals, hsound⟩ | ⟨cause, hcause⟩
  · rw [hordinals]
    exact checked_pure (serves_table hsize hsound)
  · rw [hcause]
    exact fun _ => ⟨cause, rfl⟩

/-- **Decoding a column of numbers** ends with an answer for every index that its entry covers, or with a corrupt file.
-/
theorem NumberReader.checked_read {entry : NumberEntry} {count : Nat} (h : entry.Covers count) :
    Checked (NumberReader.read entry) fun r => r.Serves count := by
  induction entry generalizing count with
  | const value => exact checked_pure fun i _ => trivial
  | uncompressed n offset =>
    refine (checked_seek _).bind fun _ _ => (checked_bytes n.toNat).bind fun data hdata => checked_pure ?_
    intro i hi
    have hinside : i < data.size := by
      rw [hdata, show n.toNat = count from h]
      exact hi
    rw [NumberReader.get, dif_pos hinside]
    trivial
  | table n offset =>
    obtain rfl : n.toNat = count := h
    exact (checked_seek _).bind fun _ _ => checked_readTable n.toNat
  | delta n offset =>
    obtain rfl : n.toNat = count := h
    have hn := n.toNat_lt
    refine (checked_seek _).bind fun _ _ => checked_readBlockSize.bind fun size hsize => ?_
    refine (Delta.Reader.checked_read hsize (table_fits size (by omega))).bind fun values hvalues => checked_pure ?_
    exact fun i hi => Delta.Reader.guarded_get hvalues.1 hsize hvalues.2 hi
  | indirect n offset values ih =>
    have hn := n.toNat_lt
    refine (checked_seek _).bind fun _ _ => checked_readBlockSize.bind fun size hsize => ?_
    refine (Monotone.Reader.checked_read hsize (table_fits size (by omega))).bind fun documents hdocuments => ?_
    obtain ⟨hsame, hlength, hsound⟩ := hdocuments
    refine (ih h).bind fun nested hnested => checked_pure ?_
    rw [← hlength] at hnested hsound
    exact serves_indirect hnested (fun i hi => Monotone.Reader.guarded_get hsame hsize hsound hi) count

/-! ## Byte strings -/

namespace StringTable

/-- the table has an address for every string, and one more for the end -/
def Sound (t : StringTable) : Prop := ∀ i, i < t.count.toNat + 1 → Guarded (t.addresses.get i) fun _ => True

theorem checked_read (offset : UInt64) (count : UInt32) :
    Checked (read offset count) fun t => t.count = count ∧ t.Sound := by
  have hcount := count.toNat_lt
  refine (checked_seek _).bind fun _ _ => checked_varint.bind fun length _ => ?_
  refine (checked_bytes length.toNat).bind fun content _ => checked_readBlockSize.bind fun size hsize => ?_
  refine (Monotone.Reader.checked_read hsize (table_fits size (by omega))).bind fun addresses haddresses => ?_
  refine checked_pure ⟨rfl, ?_⟩
  exact fun i hi => Monotone.Reader.guarded_get haddresses.1 hsize haddresses.2.2 hi

theorem Sound.guarded_get {t : StringTable} (h : t.Sound) (index : UInt32) : Guarded (t.get index) fun _ => True := by
  unfold get
  split_ifs with hpast
  · exact Guarded.error (by simp)
  · have hindex : index.toNat < t.count.toNat := by
      rwa [UInt32.le_iff_toNat_le, Nat.not_le] at hpast
    refine (h index.toNat (by omega)).bind fun start _ => (h (index.toNat + 1) (by omega)).bind fun stop _ => ?_
    split_ifs with houtside
    · exact Guarded.corruption
    · -- what the check lets through is a part of the content
      obtain ⟨hstart, horder, hstop⟩ := not_or.1 houtside |>.imp_right not_or.1
      have hordered : start.toUInt64.toNat ≤ stop.toUInt64.toNat := by
        have hle := Int64.le_iff_toInt_le.1 (Int64.not_lt.1 horder)
        rw [Int64.toNat_toUInt64_of_le (Int64.not_lt.1 hstart),
          Int64.toNat_toUInt64_of_le (Int64.le_trans (Int64.not_lt.1 hstart) (Int64.not_lt.1 horder)),
          ← Int64.toNat_toInt, ← Int64.toNat_toInt]
        exact Int.toNat_le_toNat hle
      rw [Strict.slice_eq hordered (Nat.le_of_not_lt hstop)]
      trivial

end StringTable

/-! ## Sources -/

namespace SortedSource

/-- dictionary and ordinals have an answer wherever they are asked -/
structure Sound (s : SortedSource) : Prop where
  dictionary : s.dictionary.Sound
  ordinals : s.ordinals.Serves s.documents.toNat

theorem checked_read (offset : UInt64) (size : UInt32) {ordinals : NumberEntry} {documents : UInt32}
    (h : ordinals.Covers documents.toNat) : Checked (read offset size ordinals documents) Sound := by
  refine (NumberReader.checked_read h).bind fun reader hreader => ?_
  exact (StringTable.checked_read offset size).bind fun table htable => checked_pure ⟨htable.2, hreader⟩

variable {s : SortedSource}

end SortedSource

namespace Source

/-- the parts of the source have an answer wherever they are asked -/
def Sound : Source → Prop
  | numbers s => s.reader.Serves s.documents.toNat
  | strings table => table.Sound
  | sorted s => s.Sound

variable {s : Source}

end Source

end Column

end ColumnStore
