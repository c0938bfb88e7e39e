/-
Stored byte strings are read back.

The address of a string is the number of bytes before it (`getElem?_addresses`), so the addresses rise
(`addresses_rising`) and can be packed. `StringTable.read_eq` reads the payload of some strings, and
`StringTable.get_table` every one of them.
-/
import ColumnStore.Proofs.Column.Sparse
import ColumnStore.Column.StringTable

namespace ColumnStore.Column

open Packing Storage

/-! ## Addresses -/

/-- bytes before the string of a number -/
def bytesBefore (entries : List Bytes) (k : Nat) : Nat := (entries.take k).flatten.length

theorem bytesBefore_mono (entries : List Bytes) {j k : Nat} (h : j ≤ k) :
    bytesBefore entries j ≤ bytesBefore entries k := by
  obtain ⟨n, rfl⟩ := Nat.exists_eq_add_of_le h
  rw [bytesBefore, bytesBefore, List.take_add, List.flatten_append, List.length_append]
  omega

theorem bytesBefore_le (entries : List Bytes) (k : Nat) : bytesBefore entries k ≤ entries.flatten.length := by
  have hsplit := congrArg (fun xs => (List.flatten xs).length) (List.take_append_drop k entries)
  simp only [List.flatten_append, List.length_append] at hsplit
  rw [bytesBefore]
  omega

theorem length_addresses (start : Int64) (entries : List Bytes) :
    (Payload.addresses start entries).length = entries.length + 1 := by
  induction entries generalizing start with
  | nil => rfl
  | cons s entries ih => rw [Payload.addresses, List.length_cons, ih, List.length_cons]

theorem getElem?_addresses (start : Nat) (entries : List Bytes) {k : Nat} (hk : k ≤ entries.length) :
    (Payload.addresses (Int64.ofNat start) entries)[k]? = some (Int64.ofNat (start + bytesBefore entries k)) := by
  induction entries generalizing start k with
  | nil =>
    obtain rfl : k = 0 := by simpa using hk
    rfl
  | cons s entries ih =>
    cases k with
    | zero => rfl
    | succ k =>
      rw [Payload.addresses, List.getElem?_cons_succ, ← Int64.ofNat_add, ih _ (by simpa using hk)]
      simp only [bytesBefore, List.take_succ_cons, List.flatten_cons, List.length_append, Nat.add_assoc]

variable {entries : List Bytes}

theorem getElem_addresses {k : Nat} (hk : k < (Payload.addresses 0 entries).length) :
    (Payload.addresses 0 entries)[k] = Int64.ofNat (bytesBefore entries k) := by
  have hlength := length_addresses 0 entries
  have haddress := getElem?_addresses 0 entries (k := k) (by omega)
  rw [Nat.zero_add] at haddress
  exact Option.some.inj ((List.getElem?_eq_getElem hk).symm.trans haddress)

theorem toInt_bytesBefore (hfit : entries.flatten.length < 2 ^ 63) (k : Nat) :
    (Int64.ofNat (bytesBefore entries k)).toInt = bytesBefore entries k := by
  have hle := bytesBefore_le entries k
  exact Int64.toInt_ofNat_of_lt (by omega)

theorem addresses_rising (hfit : entries.flatten.length < 2 ^ 63) : (Payload.addresses 0 entries).Pairwise (· ≤ ·) := by
  rw [List.pairwise_iff_getElem]
  intro i j hi hj hij
  have hle := bytesBefore_mono entries (Nat.le_of_lt hij)
  rw [getElem_addresses, getElem_addresses, Int64.le_iff_toInt_le, toInt_bytesBefore hfit, toInt_bytesBefore hfit]
  omega

/-! ## Payload -/

def stringBytes (entries : List Bytes) : Bytes :=
  Varint.encode entries.flatten.length ++ (entries.flatten ++
    (Payload.blockHead.flatten ++ Monotone.payload blockSize (Payload.addresses 0 entries)))

theorem strings_eq (hfit : entries.flatten.length < 2 ^ 63) :
    ∃ pieces, Payload.strings entries = .ok pieces ∧ pieces.flatten = stringBytes entries := by
  obtain ⟨pieces, hpieces, hflat⟩ := rising_eq (addresses_rising hfit)
  refine ⟨Varint.pieces entries.flatten.length ++ entries ++ pieces, ?_, ?_⟩
  · rw [Payload.strings, hpieces]
    rfl
  · rw [List.flatten_append, List.flatten_append, Varint.flatten_pieces, hflat, List.append_assoc]
    rfl

namespace StringTable

def table (entries : List Bytes) (count : UInt32) : StringTable :=
  ⟨Bytes.toByteArray entries.flatten, Monotone.reader blockSize (Payload.addresses 0 entries), count⟩

theorem read_eq {count : UInt32} (hcount : entries.length = count.toNat) (hfit : entries.flatten.length < 2 ^ 63)
    {offset : Nat} (hoffset : offset < 2 ^ 63) {i : Input} (h : i.Holds offset (stringBytes entries)) :
    ∃ j, read (UInt64.ofNat offset) count i = .ok (table entries count) j ∧ j.data = i.data := by
  have hlimit := count.toNat_lt
  have haddresses := takes_rising (Payload.addresses 0 entries) (by rw [length_addresses]; omega)
  rw [length_addresses, hcount] at haddresses
  have hlength : (UInt64.ofNat entries.flatten.length).toNat = entries.flatten.length := toNat_offset hfit
  have htakes : Reading.Takes (do
      let length ← Reading.varint
      let content ← Reading.bytes length.toNat
      let size ← readBlockSize
      let addresses ← Monotone.Reader.read size (count.toNat + 1)
      return (⟨content, addresses, count⟩ : StringTable)) (stringBytes entries) (table entries count) := by
    refine (Reading.takes_varint (by omega)).bind ?_
    refine (Reading.takes_bytes hlength.symm).bind ?_
    rw [← bind_assoc]
    exact haddresses.bind_last (Reading.takes_pure _)
  exact read_at htakes.answers hoffset h

theorem extract_string {k : Nat} (hk : k < entries.length) :
    (entries.flatten.take (bytesBefore entries (k + 1))).drop (bytesBefore entries k) = entries[k] := by
  have hsplit : entries.flatten = (entries.take k).flatten ++ (entries[k] ++ (entries.drop (k + 1)).flatten) := by
    rw [← List.flatten_cons, ← List.flatten_append, ← List.drop_eq_getElem_cons hk, List.take_append_drop]
  have hnext : bytesBefore entries (k + 1) = bytesBefore entries k + entries[k].length := by
    rw [bytesBefore, List.take_succ_eq_append_getElem hk, List.flatten_append, List.length_append, bytesBefore]
    simp
  rw [hnext, hsplit, ← List.append_assoc, List.take_left' (by rw [List.length_append, bytesBefore]), bytesBefore,
    List.drop_left]

/-- **Every string is read back.** -/
theorem get_table {count : UInt32} (hcount : entries.length = count.toNat) (hfit : entries.flatten.length < 2 ^ 63)
    {index : UInt32} (hindex : index.toNat < entries.length) :
    (table entries count).get index = .ok entries[index.toNat] := by
  have hlimit := count.toNat_lt
  have hlength := length_addresses 0 entries
  have hread : ∀ k, k ≤ entries.length →
      (Monotone.reader blockSize (Payload.addresses 0 entries)).get k = .ok (Int64.ofNat (bytesBefore entries k)) := by
    intro k hk
    rw [Monotone.get_reader blockSize_pos blockSize_lt (by omega), getElem_addresses]
  have hnat : ∀ k, (Int64.ofNat (bytesBefore entries k)).toUInt64.toNat = bytesBefore entries k := by
    intro k
    have hbelow := bytesBefore_le entries k
    rw [Int64.toUInt64_ofNat', UInt64.toNat_ofNat', Nat.mod_eq_of_lt (by omega)]
  have hmono := bytesBefore_mono entries (Nat.le_add_right index.toNat 1)
  have hend := bytesBefore_le entries (index.toNat + 1)
  have hsize : (Bytes.toByteArray entries.flatten).size = entries.flatten.length := by
    rw [← Bytes.length_ofArray, Bytes.ofArray_toByteArray]
  have hinside : ¬ (Int64.ofNat (bytesBefore entries index.toNat) < 0 ∨
      Int64.ofNat (bytesBefore entries (index.toNat + 1)) < Int64.ofNat (bytesBefore entries index.toNat) ∨
      (Bytes.toByteArray entries.flatten).size < (Int64.ofNat (bytesBefore entries (index.toNat + 1))).toUInt64.toNat) := by
    rw [hnat, hsize, Int64.lt_iff_toInt_lt, Int64.lt_iff_toInt_lt, toInt_bytesBefore hfit, toInt_bytesBefore hfit]
    change ¬ ((bytesBefore entries index.toNat : Int) < 0 ∨ _ ∨ _)
    omega
  have hcounted : ¬ count ≤ index := by
    rw [UInt32.not_le, UInt32.lt_iff_toNat_lt]
    omega
  unfold get table
  dsimp only
  rw [if_neg hcounted, hread _ (by omega), hread _ (by omega)]
  simp only [bind, Except.bind]
  rw [if_neg hinside, hnat, hnat, Strict.slice_eq hmono (hsize ▸ hend)]
  change Except.ok (Bytes.ofArray (ByteArray.extract _ _ _)) = _
  rw [Bytes.ofArray_extract, Bytes.ofArray_toByteArray, extract_string hindex]

end StringTable

end ColumnStore.Column
