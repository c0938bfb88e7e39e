/-
Bit packing against its specification.

Values of `width` bits are the digits, in base `2 ^ width`, of the number that the packed bytes stand for:
- `packedValue_eq_sum`: that number as the sum of the digits at their places;
- `word_eq_gather`: reading one word and reading byte by byte answer the same wherever both apply;
- `bit_packing`: what packing appends to a buffer, and what reading answers for any data.
-/
import Mathlib.Algebra.BigOperators.Fin
import ColumnStore.Proofs.Packing.Bits

namespace ColumnStore.Packing

open Bytes (value)

/-- the packed number is the sum of the values, cut to the width, each at its place -/
theorem packedValue_eq_sum (width : Nat) (vs : List UInt64) :
    packedValue width vs = ∑ i : Fin vs.length, vs[i].toNat % 2 ^ width * 2 ^ (i.val * width) := by
  induction vs with
  | nil => simp [packedValue]
  | cons v vs ih =>
    refine Eq.trans ?_ (Fin.sum_univ_succ (n := vs.length) _).symm
    simp only [packedValue, ih, Fin.val_zero, Nat.zero_mul, Nat.pow_zero, Nat.mul_one, Fin.getElem_fin,
      List.getElem_cons_zero, Fin.val_succ, List.getElem_cons_succ, Finset.mul_sum]
    congr 1
    refine Finset.sum_congr rfl fun i _ => ?_
    rw [Nat.succ_mul, Nat.pow_add]
    ring

/-- **One answer by two paths.** A field that ends within a word is the same read as a word and byte by byte. -/
theorem word_eq_gather (data : ByteArray) (index : Nat) (shift : Fin 8) {width : Nat} (hwidth : 0 < width)
    (hword : shift + width ≤ 64) :
    lowBits width (wordAt data index >>> UInt64.ofNat shift) = gather data index shift width 0 0 := by
  apply UInt64.toNat_inj.1
  rw [toNat_lowBits_wordAt data hword hwidth, toNat_gather data index shift width 0 0 (by omega) (by decide)]
  simp

/-- what is read of any data, as a number -/
theorem get_field (data : ByteArray) {width index : Nat} (hwidth : width ≤ 64) (hplace : index * width < 2 ^ 64) :
    ∃ w, get data width index = .ok w ∧ w.toNat = value (Bytes.ofArray data) / 2 ^ (index * width) % 2 ^ width :=
  ⟨_, get_eq_field data hwidth hplace, toNat_field _ _ hwidth⟩

/-- **Bit packing.** At every width of a word:
- packing leaves what a buffer holds and appends the bytes of the values' number, from which each value is read back, cut to
  the width;
- reading answers the field at the index's place in the number of the data, with zeros above it, whatever the data;
- where a field can be read as one word, byte by byte gives the same. -/
theorem bit_packing (width : Nat) (hlow : 1 ≤ width) (hhigh : width ≤ 64) :
    (∀ (buffer : ByteArray) (vs : List UInt64), ∃ packed : Bytes,
      Bytes.ofArray (packInto buffer width vs) = Bytes.ofArray buffer ++ packed ∧
      packed.length = packedLength vs.length width ∧
      value packed = ∑ i : Fin vs.length, vs[i].toNat % 2 ^ width * 2 ^ (i.val * width) ∧
      ∀ i : Fin vs.length, i.val * width < 2 ^ 64 →
        ∃ w, get (Bytes.toByteArray packed) width i = .ok w ∧ w.toNat = vs[i].toNat % 2 ^ width) ∧
    ∀ (data : ByteArray) (index : Nat), index * width < 2 ^ 64 →
      (∃ w, get data width index = .ok w ∧ w.toNat = value (Bytes.ofArray data) / 2 ^ (index * width) % 2 ^ width) ∧
      (index * width % 8 + width ≤ 64 → index * width / 8 + 8 ≤ data.size →
        lowBits width (wordAt data (index * width / 8) >>> UInt64.ofNat (index * width % 8)) =
          gather data (index * width / 8) (Fin.ofNat 8 (index * width)) width 0 0) := by
  refine ⟨fun buffer vs => ?_, fun data index hplace => ⟨get_field data hhigh hplace, fun hword _ => ?_⟩⟩
  · refine ⟨pack width vs, ?_, length_pack width vs, ?_, fun i hplace => ?_⟩
    · rw [ofArray_packInto, pack_eq]
    · rw [value_pack, packedValue_eq_sum]
    · obtain ⟨w, hget, hw⟩ := get_field (Bytes.toByteArray (pack width vs)) hhigh hplace
      rw [Bytes.ofArray_toByteArray, value_pack] at hw
      exact ⟨w, hget, hw.trans (field_packedValue width vs i i.isLt)⟩
  · exact word_eq_gather data _ (Fin.ofNat 8 (index * width)) hlow hword

/-- two values of 57 bits behind a byte: the second one ends past a word, and is cut to its width -/
theorem bit_packing_two : ∃ packed : Bytes,
    Bytes.ofArray (packInto ⟨#[7]⟩ 57 [1, 0xffffffffffffffff]) = 7 :: packed ∧ packed.length = 15 ∧
      value packed = 1 + (2 ^ 57 - 1) * 2 ^ 57 ∧
      ∃ w, get (Bytes.toByteArray packed) 57 1 = .ok w ∧ w.toNat = 2 ^ 57 - 1 := by
  obtain ⟨packed, hbytes, hlength, hvalue, hread⟩ :=
    (bit_packing 57 (by decide) (by decide)).1 ⟨#[7]⟩ [1, 0xffffffffffffffff]
  exact ⟨packed, hbytes, hlength, hvalue, hread 1 (by decide)⟩

end ColumnStore.Packing
