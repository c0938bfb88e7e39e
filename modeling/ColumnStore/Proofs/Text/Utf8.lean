/-
Every text is read back from its UTF-8 bytes.

The first byte of a sequence says how many bytes follow, and each of those holds six bits. What `head` asks of the second
byte holds for the sequence of a scalar, which is never overlong, never a surrogate and never past the last scalar
(`head_two`, `head_three`, `head_four`). So a text is decoded scalar by scalar (`decode_ofText`).
-/
import Mathlib.Tactic
import ColumnStore.Text.Utf8

namespace ColumnStore.Text.Utf8

variable {c : Char}

/-! ## Bytes of a sequence -/

theorem toNat_byte {n : Nat} (h : n < 256) : (UInt8.ofNat n).toNat = n := by
  rw [UInt8.toNat_ofNat', Nat.mod_eq_of_lt h]

theorem continues_six (n : Nat) : continues (UInt8.ofNat (n % 64 + 128)) = true := by
  have h : ∀ m : Fin 64, continues (UInt8.ofNat (m.val + 128)) = true := by decide
  exact h ⟨n % 64, Nat.mod_lt _ (by decide)⟩

/-- a byte that continues a sequence holds six bits -/
theorem low_six (n : Nat) : low (UInt8.ofNat (n % 64 + 128)) = n % 64 := by
  rw [low, toNat_byte (by omega)]
  omega

theorem between_iff {b least most : UInt8} :
    (least ≤ b && b ≤ most) = true ↔ least.toNat ≤ b.toNat ∧ b.toNat ≤ most.toNat := by
  rw [Bool.and_eq_true, decide_eq_true_eq, decide_eq_true_eq, UInt8.le_iff_toNat_le, UInt8.le_iff_toNat_le]

/-- what may follow a first byte: the four that leave part of the range out, and the others -/
theorem second_iff {first b : UInt8} : second first b = true ↔
    128 ≤ b.toNat ∧ b.toNat ≤ 191 ∧ (first.toNat = 0xE0 → 0xA0 ≤ b.toNat) ∧ (first.toNat = 0xED → b.toNat ≤ 0x9F) ∧
      (first.toNat = 0xF0 → 0x90 ≤ b.toNat) ∧ (first.toNat = 0xF4 → b.toNat ≤ 0x8F) := by
  have heq : ∀ x y : UInt8, x = y ↔ x.toNat = y.toNat := fun x y => UInt8.toNat_inj.symm
  unfold second continues
  simp only [heq]
  split_ifs <;> rw [between_iff] <;> simp_all <;> omega

/-! ## One scalar -/

theorem head_one (h : c.toNat ≤ 127) (rest : Bytes) : head (UInt8.ofNat c.toNat) rest = .scalar c 1 := by
  have hfirst := toNat_byte (show c.toNat < 256 by omega)
  have hascii : UInt8.ofNat c.toNat < 0x80 := by
    rw [UInt8.lt_iff_toNat_lt, hfirst]
    exact Nat.lt_succ_of_le h
  unfold head
  rw [if_pos hascii, hfirst, Char.ofNat_toNat]

theorem head_two (hlow : 127 < c.toNat) (hhigh : c.toNat ≤ 2047) (rest : Bytes) :
    head (UInt8.ofNat (c.toNat / 64 % 32 + 192)) (UInt8.ofNat (c.toNat % 64 + 128) :: rest) = .scalar c 2 := by
  have hfirst : (UInt8.ofNat (c.toNat / 64 % 32 + 192)).toNat = c.toNat / 64 + 192 := by
    rw [toNat_byte (by omega)]
    omega
  generalize UInt8.ofNat (c.toNat / 64 % 32 + 192) = first at hfirst
  have hascii : ¬ first < 0x80 := by
    rw [UInt8.lt_iff_toNat_lt, hfirst]
    simp
  have hlead : (0xC2 ≤ first && first ≤ 0xDF) = true := by
    simp only [between_iff, hfirst, UInt8.reduceToNat]
    omega
  have hvalue : first.toNat % 32 * 64 + c.toNat % 64 = c.toNat := by omega
  unfold head
  rw [if_neg hascii, if_pos hlead]
  simp only [continues_six, if_true, low_six, hvalue, Char.ofNat_toNat]

theorem head_three (hlow : 2047 < c.toNat) (hhigh : c.toNat ≤ 65535) (rest : Bytes) :
    head (UInt8.ofNat (c.toNat / 4096 % 16 + 224)) (UInt8.ofNat (c.toNat / 64 % 64 + 128) ::
      UInt8.ofNat (c.toNat % 64 + 128) :: rest) = .scalar c 3 := by
  have hscalar : c.toNat < 0xD800 ∨ 0xDFFF < c.toNat ∧ c.toNat < 0x110000 := c.valid
  have hfirst : (UInt8.ofNat (c.toNat / 4096 % 16 + 224)).toNat = c.toNat / 4096 + 224 := by
    rw [toNat_byte (by omega)]
    omega
  have hnext : (UInt8.ofNat (c.toNat / 64 % 64 + 128)).toNat = c.toNat / 64 % 64 + 128 := toNat_byte (by omega)
  have hsecond : second (UInt8.ofNat (c.toNat / 4096 % 16 + 224)) (UInt8.ofNat (c.toNat / 64 % 64 + 128)) = true := by
    rw [second_iff, hfirst, hnext]
    omega
  generalize UInt8.ofNat (c.toNat / 4096 % 16 + 224) = first at hfirst hsecond
  have hascii : ¬ first < 0x80 := by
    rw [UInt8.lt_iff_toNat_lt, hfirst]
    simp
  have htwo : ¬ (0xC2 ≤ first && first ≤ 0xDF) = true := by
    simp only [between_iff, hfirst, UInt8.reduceToNat]
    omega
  have hlead : (0xE0 ≤ first && first ≤ 0xEF) = true := by
    simp only [between_iff, hfirst, UInt8.reduceToNat]
    omega
  have hvalue : (first.toNat % 16 * 64 + c.toNat / 64 % 64) * 64 + c.toNat % 64 = c.toNat := by omega
  unfold head
  rw [if_neg hascii, if_neg htwo, if_pos hlead]
  simp only [hsecond, continues_six, if_true, low_six, hvalue, Char.ofNat_toNat]

theorem head_four (hlow : 65535 < c.toNat) (rest : Bytes) :
    head (UInt8.ofNat (c.toNat / 262144 % 8 + 240)) (UInt8.ofNat (c.toNat / 4096 % 64 + 128) ::
      UInt8.ofNat (c.toNat / 64 % 64 + 128) :: UInt8.ofNat (c.toNat % 64 + 128) :: rest) = .scalar c 4 := by
  have hscalar : c.toNat < 0xD800 ∨ 0xDFFF < c.toNat ∧ c.toNat < 0x110000 := c.valid
  have hfirst : (UInt8.ofNat (c.toNat / 262144 % 8 + 240)).toNat = c.toNat / 262144 + 240 := by
    rw [toNat_byte (by omega)]
    omega
  have hnext : (UInt8.ofNat (c.toNat / 4096 % 64 + 128)).toNat = c.toNat / 4096 % 64 + 128 := toNat_byte (by omega)
  have hsecond : second (UInt8.ofNat (c.toNat / 262144 % 8 + 240)) (UInt8.ofNat (c.toNat / 4096 % 64 + 128)) = true := by
    rw [second_iff, hfirst, hnext]
    omega
  generalize UInt8.ofNat (c.toNat / 262144 % 8 + 240) = first at hfirst hsecond
  have hascii : ¬ first < 0x80 := by
    rw [UInt8.lt_iff_toNat_lt, hfirst]
    simp
  have htwo : ¬ (0xC2 ≤ first && first ≤ 0xDF) = true := by
    simp only [between_iff, hfirst, UInt8.reduceToNat]
    omega
  have hthree : ¬ (0xE0 ≤ first && first ≤ 0xEF) = true := by
    simp only [between_iff, hfirst, UInt8.reduceToNat]
    omega
  have hlead : (0xF0 ≤ first && first ≤ 0xF4) = true := by
    simp only [between_iff, hfirst, UInt8.reduceToNat]
    omega
  have hvalue : ((first.toNat % 8 * 64 + c.toNat / 4096 % 64) * 64 + c.toNat / 64 % 64) * 64 + c.toNat % 64 = c.toNat := by
    omega
  unfold head
  rw [if_neg hascii, if_neg htwo, if_neg hthree, if_pos hlead]
  simp only [hsecond, continues_six, if_true, low_six, hvalue, Char.ofNat_toNat]

theorem head_encode (c : Char) : ∃ first others, String.utf8EncodeChar c = first :: others ∧
    ∀ rest, head first (others ++ rest) = .scalar c (others.length + 1) := by
  rw [String.utf8EncodeChar]
  split_ifs with hone htwo hthree
  · exact ⟨_, _, rfl, head_one hone⟩
  · exact ⟨_, _, rfl, head_two (not_le.1 hone) htwo⟩
  · exact ⟨_, _, rfl, head_three (not_le.1 htwo) hthree⟩
  · exact ⟨_, _, rfl, head_four (not_le.1 hthree)⟩

/-! ## Texts -/

theorem decodeFrom_encode (index : Nat) (cs : List Char) :
    decodeFrom index (cs.flatMap String.utf8EncodeChar) = .ok cs := by
  induction cs generalizing index with
  | nil => rw [List.flatMap_nil, decodeFrom]
  | cons c cs ih =>
    obtain ⟨first, others, hbytes, hhead⟩ := head_encode c
    rw [List.flatMap_cons, hbytes, List.cons_append, decodeFrom, hhead]
    simp only [Nat.add_sub_cancel, List.drop_left, ih]

theorem ofText_eq_flatMap (text : String) : Bytes.ofText text = text.toList.flatMap String.utf8EncodeChar := by
  conv_lhs => rw [← String.ofList_toList (s := text)]
  rw [Bytes.ofText, String.toUTF8, String.toByteArray_ofList, Bytes.ofArray, List.utf8Encode, List.data_toByteArray]

/-- **Every text is read back** from its bytes. -/
theorem decode_ofText (text : String) : decode (Bytes.ofText text) = .ok text := by
  rw [decode, ofText_eq_flatMap, decodeFrom_encode]
  exact congrArg Except.ok String.ofList_toList

theorem length_ofText (text : String) : (Bytes.ofText text).length = text.utf8ByteSize := rfl

theorem ofText_injective {text other : String} (h : Bytes.ofText text = Bytes.ofText other) : text = other := by
  have hback := decode_ofText text
  rw [h, decode_ofText] at hback
  exact (Except.ok.inj hback).symm

end ColumnStore.Text.Utf8
