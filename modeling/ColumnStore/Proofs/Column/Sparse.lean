/-
Columns that are stored by their present values only.

A sparse column is cut in two: the documents that carry a value, rising (`documentsFrom_rising`), and those values in
the same order (`documentsFrom_value`); every other document is missing (`mem_documentsFrom`). Main results:
- `decodes_indirect`: if the values are decoded, so is the whole column;
- `gives_indirect`: a search among the documents answers the value of a listed one, and "no value" for any other.
-/
import ColumnStore.Proofs.Column.Decoding

namespace ColumnStore.Column

open Packing Storage

/-! ## Cutting a column in two -/

def presentValues (vs : List Int64) : List Int64 := vs.filter (· != missing)

theorem present_map_some (vs : List Int64) : present (vs.map some) = (presentValues vs).map some := by
  induction vs with
  | nil => rfl
  | cons v vs ih =>
    unfold present presentValues at ih ⊢
    by_cases h : v = missing
    · simpa [h] using ih
    · simpa [h] using ih

theorem length_presentValues (vs : List Int64) : (presentValues vs).length = vs.length - vs.count missing := by
  have hsplit := List.length_eq_countP_add_countP (· == missing) (l := vs)
  have hpresent : (presentValues vs).length = vs.countP fun v => !(v == missing) := by
    rw [presentValues, List.countP_eq_length_filter]
    rfl
  have hcount : vs.count missing = vs.countP (· == missing) := rfl
  have hnot : (fun v : Int64 => decide ¬(v == missing) = true) = fun v => !(v == missing) := by
    funext v
    cases v == missing <;> rfl
  rw [hnot] at hsplit
  omega

/-- each of the documents listed carries the present value of the same place -/
theorem documentsFrom_value (first : Nat) {vs : List Int64} {k d : Nat}
    (h : (documentsFrom first (vs.map some))[k]? = some d) :
    first ≤ d ∧ ∃ v, vs[d - first]? = some v ∧ (presentValues vs)[k]? = some v := by
  induction vs generalizing first k with
  | nil => simp [documentsFrom] at h
  | cons v vs ih =>
    by_cases hv : v = missing
    · -- a missing value moves the documents up by one
      obtain ⟨hle, w, hw, hk⟩ := ih (first + 1) (by simpa [documentsFrom, hv] using h)
      refine ⟨by omega, w, ?_, by simpa [presentValues, hv] using hk⟩
      rw [show d - first = d - (first + 1) + 1 by omega, List.getElem?_cons_succ, hw]
    · have hcons : documentsFrom first ((v :: vs).map some) = first :: documentsFrom (first + 1) (vs.map some) := by
        simp [documentsFrom, hv]
      rw [hcons] at h
      cases k with
      | zero =>
        obtain rfl : first = d := by simpa using h
        exact ⟨le_refl _, v, by simp, by simp [presentValues, hv]⟩
      | succ k =>
        obtain ⟨hle, w, hw, hk⟩ := ih (first + 1) (by simpa using h)
        refine ⟨by omega, w, ?_, by simpa [presentValues, hv] using hk⟩
        rw [show d - first = d - (first + 1) + 1 by omega, List.getElem?_cons_succ, hw]

/-- every document that is not listed is missing -/
theorem mem_documentsFrom (first : Nat) {vs : List Int64} {i : Nat} (hi : i < vs.length) (hv : vs[i] ≠ missing) :
    first + i ∈ documentsFrom first (vs.map some) := by
  induction vs generalizing first i with
  | nil => simp at hi
  | cons v vs ih =>
    cases i with
    | zero =>
      have hhead : v ≠ missing := hv
      simp [documentsFrom, hhead]
    | succ i =>
      have hmem := ih (first + 1) (i := i) (by simpa using hi) (by simpa using hv)
      rw [show first + 1 + i = first + (i + 1) by omega] at hmem
      by_cases hhead : v = missing
      · simpa [documentsFrom, hhead] using hmem
      · simp [documentsFrom, hhead, hmem]

theorem documentsFrom_rising (first : Nat) (vs : List Int64) :
    (documentsFrom first (vs.map some)).Pairwise (· < ·) ∧ ∀ d ∈ documentsFrom first (vs.map some),
      first ≤ d ∧ d < first + vs.length := by
  induction vs generalizing first with
  | nil => simp [documentsFrom]
  | cons v vs ih =>
    obtain ⟨hrising, hbounds⟩ := ih (first + 1)
    by_cases hv : v = missing
    · simp only [documentsFrom, List.map_cons, hv, beq_self_eq_true, if_true, List.length_cons]
      refine ⟨hrising, ?_⟩
      intro d hd
      have := hbounds d hd
      omega
    · have hne : (some v == some missing) = false := by simpa using hv
      simp only [documentsFrom, List.map_cons, hne, Bool.false_eq_true, if_false, List.length_cons]
      refine ⟨List.pairwise_cons.2 ⟨?_, hrising⟩, ?_⟩
      · intro d hd
        have := hbounds d hd
        omega
      · intro d hd
        rcases List.mem_cons.1 hd with rfl | hd
        · omega
        · have := hbounds d hd
          omega

theorem length_documents (vs : List Int64) : (documents (vs.map some)).length = (presentValues vs).length := by
  unfold documents
  generalize 0 = first
  induction vs generalizing first with
  | nil => rfl
  | cons v vs ih =>
    by_cases hv : v = missing
    · simpa [documentsFrom, presentValues, hv] using ih (first + 1)
    · simpa [documentsFrom, presentValues, hv] using ih (first + 1)

/-- the documents of a sparse column, as the words that are packed -/
def documentWords (vs : List Int64) : List Int64 := (documents (vs.map some)).map Int64.ofNat

theorem length_documentWords (vs : List Int64) : (documentWords vs).length = (presentValues vs).length := by
  rw [documentWords, List.length_map, length_documents]

theorem documentWords_rising (vs : List Int64) (hlen : vs.length < 2 ^ 63) : (documentWords vs).Pairwise (· ≤ ·) := by
  obtain ⟨hrising, hbounds⟩ := documentsFrom_rising 0 vs
  refine List.pairwise_map.2 ?_
  refine List.Pairwise.imp_of_mem ?_ hrising
  intro a b ha hb hab
  have hboundA := hbounds a ha
  have hboundB := hbounds b hb
  rw [Int64.le_iff_toInt_le, Int64.toInt_ofNat_of_lt (by omega), Int64.toInt_ofNat_of_lt (by omega)]
  omega

/-! ## Payloads -/

def documentBytes (vs : List Int64) : Bytes := Payload.blockHead.flatten ++ Monotone.payload blockSize (documentWords vs)

theorem rising_eq {vs : List Int64} (h : vs.Pairwise (· ≤ ·)) :
    ∃ pieces, Payload.rising vs = .ok pieces ∧
      pieces.flatten = Payload.blockHead.flatten ++ Monotone.payload blockSize vs := by
  refine ⟨Payload.blockHead ++ (blocks blockSize vs).flatMap Monotone.blockPieces, ?_, ?_⟩
  · rw [Payload.rising, Monotone.pieces_eq blockSize_ok (Monotone.isRising_of_rising h)]
    rfl
  · rw [List.flatten_append, Monotone.flatten_pieces]

theorem takes_rising (vs : List Int64) (hlen : vs.length < 2 ^ 57) :
    Reading.Takes (readBlockSize >>= fun size => Monotone.Reader.read size vs.length)
      (Payload.blockHead.flatten ++ Monotone.payload blockSize vs) (Monotone.reader blockSize vs) :=
  takes_readBlockSize.bind (Monotone.takes_read blockSize_pos blockSize_lt (table_fits _ hlen))

theorem decodes_indirect {vs : List Int64} {count : UInt32} (hcount : (presentValues vs).length = count.toNat)
    {offset : Nat} (hoffset : offset < 2 ^ 63) {nested : NumberEntry} {payload : Bytes} {reader : NumberReader}
    (hnested : Decodes nested (offset + (documentBytes vs).length) payload reader) :
    Decodes (.indirect count (UInt64.ofNat offset) nested) offset (documentBytes vs ++ payload)
      (.indirect (Monotone.reader blockSize (documentWords vs)) reader) := by
  intro i h
  have hlen : (documentWords vs).length < 2 ^ 57 := by
    have := count.toNat_lt
    rw [length_documentWords, hcount]
    omega
  have hread : Reading.Takes (readBlockSize >>= fun size => Monotone.Reader.read size (documentWords vs).length)
      (documentBytes vs) (Monotone.reader blockSize (documentWords vs)) :=
  takes_rising _ hlen
  rw [length_documentWords, hcount] at hread
  have hplace := hread.at h.left
  obtain ⟨j, hj, hdata⟩ := hnested { i with position := offset + (documentBytes vs).length } (h.right.of_data rfl)
  refine ⟨j, ?_, hdata⟩
  rw [NumberReader.read, toNat_offset hoffset, ← bind_assoc, ← bind_assoc]
  rw [bind_assoc (Reading.seek offset), Reading.bind_ok hplace]
  rw [Reading.bind_ok hj]
  rfl

theorem gives_indirect {vs : List Int64} (hlen : vs.length < 2 ^ 57) {reader : NumberReader}
    (hreader : reader.Gives (presentValues vs)) :
    (NumberReader.indirect (Monotone.reader blockSize (documentWords vs)) reader).Gives vs := by
  intro i hi
  obtain ⟨found, hfound, hfits⟩ := Monotone.search_reader blockSize_pos blockSize_lt (documentWords_rising vs (by omega))
    (Int64.ofNat i)
  -- a listed document compares like its number
  have hdocument : ∀ k (hk : k < (documents (vs.map some)).length),
      ((documentWords vs)[k]?.getD 0).toInt = (documents (vs.map some))[k] := by
    intro k hk
    have hbound := (documentsFrom_rising 0 vs).2 _ (List.getElem_mem hk)
    rw [documentWords, List.getElem?_map, List.getElem?_eq_getElem hk, Option.map_some, Option.getD_some,
      Int64.toInt_ofNat_of_lt (by omega)]
  have hindex : (Int64.ofNat i).toInt = i := Int64.toInt_ofNat_of_lt (by omega)
  rw [NumberReader.get, hfound]
  cases found with
  | here k =>
    obtain ⟨hk, heq⟩ := hfits
    have hk' : k < (documents (vs.map some)).length := by rwa [length_documents, ← length_documentWords]
    have hk'' : k < (presentValues vs).length := by rwa [← length_documentWords]
    have hsame : (documents (vs.map some))[k] = i := by
      rw [Monotone.compare_eq_iff, ← Int64.toInt_inj, hdocument k hk', hindex] at heq
      exact Int.ofNat_inj.1 heq
    obtain ⟨-, v, hv, hpresent⟩ := documentsFrom_value 0 (List.getElem?_eq_some_iff.2 ⟨hk', hsame⟩)
    rw [Nat.sub_zero, List.getElem?_eq_getElem hi, Option.some.injEq] at hv
    rw [List.getElem?_eq_getElem hk'', Option.some.injEq] at hpresent
    exact hv ▸ hpresent ▸ hreader k hk''
  | before k =>
    -- a listed document would have been found
    have hmissing : vs[i] = missing := by
      by_contra hv
      have hmem := mem_documentsFrom 0 hi hv
      obtain ⟨p, hp, hpi⟩ := List.mem_iff_getElem.1 hmem
      have heq : compare ((documentWords vs)[p]?.getD 0) (Int64.ofNat i) = .eq := by
        rw [Monotone.compare_eq_iff, ← Int64.toInt_inj, hdocument p hp, hindex]
        exact congrArg Int.ofNat (hpi.trans (Nat.zero_add i))
      have hlength : p < (documentWords vs).length := by
        rw [length_documentWords, ← length_documents]
        exact hp
      exact hfits.ne_eq hlength heq
    rw [hmissing]

end ColumnStore.Column
