/-
Variable-length integers: which byte strings are varints, what number they stand for, and what the decoder makes of them.

`Whole bs` says that `bs` is one varint and nothing else, `number bs` is the number of its groups. An encoding is the
shortest whole varint of its number (`whole_encode`, `number_encode`, `length_encode_le_iff`), and no whole varint is the
start of another (`Whole.eq_of_start`).

Every byte string starts with a whole varint of at most ten bytes, or ends before one is complete, or goes on for ten
bytes. The decoder tells these apart (`decode_eq_ok_iff`, `decode_eq_endOfInput_iff`, `decode_eq_tooLong_iff`) and answers
the number modulo `2 ^ 64`; which numbers that changes is seen at the tenth byte (`Whole.large_iff`).
-/
import Mathlib.Data.Nat.Digits.Defs
import Mathlib.Data.Nat.Size
import ColumnStore.Proofs.Bytes.Values
import ColumnStore.Bytes.Varint

namespace ColumnStore.Varint

/-! ## Encoding -/

theorem encode_of_lt {n : Nat} (h : n < 128) : encode n = [UInt8.ofNat n] := by
  rw [encode, if_pos h]

theorem encode_of_le {n : Nat} (h : 128 ≤ n) : encode n = UInt8.ofNat (n % 128 + 128) :: encode (n / 128) := by
  rw [encode, if_neg (by omega)]

theorem length_encode_pos (n : Nat) : 0 < (encode n).length := by
  by_cases h : n < 128
  · simp [encode_of_lt h]
  · simp [encode_of_le (show 128 ≤ n by omega)]

theorem length_encode_le {k n : Nat} (hk : 0 < k) (hn : n < 128 ^ k) : (encode n).length ≤ k := by
  induction k generalizing n with
  | zero => omega
  | succ k ih =>
    by_cases h : n < 128
    · simp [encode_of_lt h]
    · rw [encode_of_le (by omega), List.length_cons]
      rw [Nat.pow_succ] at hn
      have hpos : 0 < k := by
        rcases Nat.eq_zero_or_pos k with rfl | hk
        · simp at hn; omega
        · exact hk
      have := ih hpos (n := n / 128) (by omega)
      omega

/-- the pieces of a varint hold its bytes, one each -/
@[simp] theorem flatten_pieces (n : Nat) : (pieces n).flatten = encode n := by
  unfold pieces
  induction encode n with
  | nil => rfl
  | cons b bs ih => simpa using ih

/-! ## Groups -/

/-- one varint and nothing else: every byte but the last says that more groups follow -/
inductive Whole : Bytes → Prop where
  | last {b : UInt8} (hb : continues b = false) : Whole [b]
  | more {b : UInt8} {bs : Bytes} (hb : continues b = true) (hbs : Whole bs) : Whole (b :: bs)

/-- the number of a varint: the low seven bits of its bytes are its digits in base 128, the lowest first -/
def number (bs : Bytes) : Nat := Nat.ofDigits 128 (bs.map fun b => b.toNat % 128)

@[simp] theorem number_nil : number [] = 0 := rfl

@[simp] theorem number_cons (b : UInt8) (bs : Bytes) : number (b :: bs) = b.toNat % 128 + 128 * number bs := by
  rw [number, number, List.map_cons, Nat.ofDigits_cons]

theorem number_append (xs ys : Bytes) : number (xs ++ ys) = number xs + 128 ^ xs.length * number ys := by
  rw [number, number, number, List.map_append, Nat.ofDigits_append, List.length_map]

theorem number_lt (bs : Bytes) : number bs < 128 ^ bs.length := by
  have hdigits : ∀ d ∈ bs.map fun b => b.toNat % 128, d < 128 := by
    intro d hd
    obtain ⟨b, -, rfl⟩ := List.mem_map.1 hd
    exact Nat.mod_lt _ (by decide)
  have hlt := Nat.ofDigits_lt_base_pow_length (by decide) hdigits
  rwa [List.length_map] at hlt

theorem continues_iff (b : UInt8) : continues b = true ↔ 128 ≤ b.toNat := by
  have hall : ∀ m : Fin 256, continues (UInt8.ofNat m.val) = true ↔ 128 ≤ (UInt8.ofNat m.val).toNat := by decide +kernel
  have hb := hall ⟨b.toNat, b.toNat_lt⟩
  rwa [UInt8.ofNat_toNat] at hb

theorem toNat_low (b : UInt8) : (b &&& 0x7f).toNat = b.toNat % 128 := by
  rw [UInt8.toNat_and]
  exact Nat.and_two_pow_sub_one_eq_mod b.toNat 7

theorem Whole.length_pos {bs : Bytes} (h : Whole bs) : 0 < bs.length := by
  cases h <;> simp

/-- only the last byte of a varint is not continued -/
theorem Whole.eq_append {bs : Bytes} (h : Whole bs) :
    ∃ front b, bs = front ++ [b] ∧ continues b = false ∧ ∀ c ∈ front, continues c = true := by
  induction h with
  | @last b hb => exact ⟨[], b, rfl, hb, by simp⟩
  | @more c bs hc _ ih =>
    obtain ⟨front, b, rfl, hb, hfront⟩ := ih
    exact ⟨c :: front, b, rfl, hb, List.forall_mem_cons.2 ⟨hc, hfront⟩⟩

/-- the first bytes of a varint, if they are not all of it, are continued -/
theorem Whole.continues_take {bs : Bytes} {count : Nat} (h : Whole bs) (hcount : count < bs.length) (rest : Bytes) :
    ∀ b ∈ (bs ++ rest).take count, continues b = true := by
  obtain ⟨front, b, rfl, -, hfront⟩ := h.eq_append
  rw [List.length_append, List.length_singleton] at hcount
  rw [List.append_assoc, List.take_append_of_le_length (by omega)]
  exact fun c hc => hfront c (List.mem_of_mem_take hc)

/-- **Varints end by themselves.** None is a proper start of another. -/
theorem Whole.eq_of_start {xs ys : Bytes} (hxs : Whole xs) (hys : Whole ys) (h : xs <+: ys) : xs = ys := by
  induction hxs generalizing ys with
  | @last b hb =>
    cases hys with
    | last _ => simpa using h
    | more hc _ =>
      obtain ⟨rfl, -⟩ := List.cons_prefix_cons.1 h
      simp [hb] at hc
  | @more b bs hb hbs ih =>
    cases hys with
    | last hc =>
      obtain ⟨rfl, -⟩ := List.cons_prefix_cons.1 h
      simp [hb] at hc
    | more _ hys =>
      obtain ⟨rfl, hrest⟩ := List.cons_prefix_cons.1 h
      rw [ih hys hrest]

theorem whole_encode (n : Nat) : Whole (encode n) := by
  induction n using Nat.strongRecOn with
  | ind n ih =>
    by_cases h : n < 128
    · rw [encode_of_lt h]
      refine .last ?_
      rw [Bool.eq_false_iff, ne_eq, continues_iff, UInt8.toNat_ofNat']
      omega
    · rw [encode_of_le (by omega)]
      refine .more ?_ (ih (n / 128) (by omega))
      rw [continues_iff, UInt8.toNat_ofNat']
      omega

/-- an encoding is a varint of the number that was encoded -/
@[simp] theorem number_encode (n : Nat) : number (encode n) = n := by
  induction n using Nat.strongRecOn with
  | ind n ih =>
    by_cases h : n < 128
    · rw [encode_of_lt h, number_cons, number_nil, UInt8.toNat_ofNat']
      omega
    · rw [encode_of_le (by omega), number_cons, ih (n / 128) (by omega), UInt8.toNat_ofNat']
      omega

theorem length_encode_le_iff {k n : Nat} (hk : 0 < k) : (encode n).length ≤ k ↔ n < 128 ^ k := by
  refine ⟨fun h => ?_, length_encode_le hk⟩
  have hlt := number_lt (encode n)
  rw [number_encode] at hlt
  exact lt_of_lt_of_le hlt (Nat.pow_le_pow_right (by decide) h)

/-- the encoding of a number has one byte for each seven of its bits, and at least one -/
theorem length_encode (n : Nat) : (encode n).length = max 1 ((n.size + 6) / 7) := by
  have hbound : ∀ k, 0 < k → ((encode n).length ≤ k ↔ max 1 ((n.size + 6) / 7) ≤ k) := by
    intro k hk
    rw [length_encode_le_iff hk, show (128 : Nat) = 2 ^ 7 from rfl, ← Nat.pow_mul, ← Nat.size_le]
    omega
  have hpos := length_encode_pos n
  refine le_antisymm ((hbound _ (by omega)).2 le_rfl) ((hbound _ hpos).1 le_rfl)

/-- **At the tenth byte** a varint outgrows 64 bits: only one bit of it is left for the number -/
theorem Whole.large_iff {bs : Bytes} (h : Whole bs) (hlength : bs.length ≤ maxGroups) :
    2 ^ 64 ≤ number bs ↔ ∃ b, bs[9]? = some b ∧ 1 < b.toNat := by
  obtain ⟨front, b, rfl, hb, -⟩ := h.eq_append
  have hfront := number_lt front
  have hlast : b.toNat < 128 := by
    rw [Bool.eq_false_iff, ne_eq, continues_iff] at hb
    omega
  rw [List.length_append, List.length_singleton, maxGroups] at hlength
  rcases Nat.lt_or_eq_of_le (show front.length ≤ 9 by omega) with hshort | hfull
  · have hnone : (front ++ [b])[9]? = none := List.getElem?_eq_none (by simp; omega)
    have hsmall := number_lt (front ++ [b])
    have hpow : 128 ^ (front ++ [b]).length ≤ 128 ^ 9 := Nat.pow_le_pow_right (by decide) (by simp; omega)
    simp only [hnone, reduceCtorEq, false_and, exists_false, iff_false]
    omega
  · have hget : (front ++ [b])[9]? = some b := by rw [← hfull, List.getElem?_append_right le_rfl, Nat.sub_self]; rfl
    rw [hfull] at hfront
    rw [number_append, number_cons, number_nil, Nat.mod_eq_of_lt hlast, hfull]
    simp only [hget, Option.some.injEq, exists_eq_left']
    omega

/-! ## Decoding -/

/-- a group above what was collected is added to it, in 64 bits -/
theorem toNat_or_group {acc : UInt64} {b : UInt8} {s : Nat} (hs : s < 64) (hacc : acc.toNat < 2 ^ s) :
    (acc ||| group b (UInt64.ofNat s)).toNat = (acc.toNat + b.toNat % 128 * 2 ^ s) % 2 ^ 64 := by
  have hsplit : 2 ^ (64 - s) * 2 ^ s = 2 ^ 64 := by rw [← Nat.pow_add, Nat.sub_add_cancel hs.le]
  have hshift : (UInt64.ofNat s).toNat % 64 = s := by
    rw [UInt64.toNat_ofNat']
    omega
  -- the bits of the group that there is room for
  have hgroup : (group b (UInt64.ofNat s)).toNat = b.toNat % 128 % 2 ^ (64 - s) * 2 ^ s := by
    rw [group, UInt64.toNat_shiftLeft, hshift, UInt8.toNat_toUInt64, toNat_low, Nat.shiftLeft_eq, ← hsplit,
      Nat.mul_mod_mul_right]
  have hsum : (acc ||| group b (UInt64.ofNat s)).toNat = acc.toNat + b.toNat % 128 % 2 ^ (64 - s) * 2 ^ s := by
    rw [UInt64.toNat_or, hgroup, Nat.or_comm, Nat.mul_comm, ← Nat.two_pow_add_eq_or_of_lt hacc, Nat.add_comm]
  have hlt := (acc ||| group b (UInt64.ofNat s)).toNat_lt
  rw [hsum] at hlt ⊢
  rw [← Nat.mul_mod_mul_right, hsplit] at hlt ⊢
  rw [← Nat.mod_eq_of_lt hlt, Nat.add_mod_mod]

/-- in the middle of a varint, the number of what is left is added at its place -/
theorem decodeFrom_whole {bs : Bytes} {groups s : Nat} {acc : UInt64} (h : Whole bs) (hlength : bs.length ≤ groups)
    (hs : s + 7 * groups ≤ 70) (hacc : acc.toNat < 2 ^ s) (rest : Bytes) :
    decodeFrom groups (UInt64.ofNat s) acc (bs ++ rest) = .ok (UInt64.ofNat (acc.toNat + number bs * 2 ^ s), rest) := by
  induction h generalizing groups s acc with
  | @last b hb =>
    obtain ⟨groups, rfl⟩ : ∃ g, groups = g + 1 := ⟨groups - 1, by simp at hlength; omega⟩
    have hsum : acc ||| group b (UInt64.ofNat s) = UInt64.ofNat (acc.toNat + number [b] * 2 ^ s) := by
      apply UInt64.toNat_inj.1
      rw [toNat_or_group (by omega) hacc, UInt64.toNat_ofNat', number_cons, number_nil, Nat.mul_zero, Nat.add_zero]
    rw [List.singleton_append, decodeFrom, if_neg (by simp [hb]), hsum]
  | @more b bs hb hbs ih =>
    have hpos := hbs.length_pos
    rw [List.length_cons] at hlength
    obtain ⟨groups, rfl⟩ : ∃ g, groups = g + 1 := ⟨groups - 1, by omega⟩
    have hnext : UInt64.ofNat s + 7 = UInt64.ofNat (s + 7) := by
      rw [UInt64.ofNat_add]; rfl
    -- there is room for this group, as another one follows it
    have hroom : acc.toNat + b.toNat % 128 * 2 ^ s < 2 ^ (s + 7) := by
      have : b.toNat % 128 * 2 ^ s ≤ 127 * 2 ^ s := Nat.mul_le_mul_right _ (by omega)
      rw [Nat.pow_add]
      omega
    have hfits : 2 ^ (s + 7) ≤ 2 ^ 64 := Nat.pow_le_pow_right (by decide) (by omega)
    have hsum := toNat_or_group (b := b) (by omega : s < 64) hacc
    rw [Nat.mod_eq_of_lt (by omega)] at hsum
    rw [List.cons_append, decodeFrom, if_pos hb, hnext, ih (by omega) (by omega) (hsum ▸ hroom), hsum, number_cons]
    rw [show acc.toNat + b.toNat % 128 * 2 ^ s + number bs * 2 ^ (s + 7) =
      acc.toNat + (b.toNat % 128 + 128 * number bs) * 2 ^ s by rw [Nat.pow_add]; ring]

theorem decode_whole {bs : Bytes} (h : Whole bs) (hlength : bs.length ≤ maxGroups) (rest : Bytes) :
    decode (bs ++ rest) = .ok (UInt64.ofNat (number bs), rest) := by
  have hstart := @decodeFrom_whole bs maxGroups 0 0 h hlength (by decide) (by decide) rest
  simpa [decode] using hstart

theorem decodeFrom_unfinished {bs : Bytes} {groups : Nat} {shift acc : UInt64} (h : ∀ b ∈ bs, continues b = true)
    (hlength : bs.length < groups) : decodeFrom groups shift acc bs = .error .endOfInput := by
  induction bs generalizing groups shift acc with
  | nil =>
    obtain ⟨groups, rfl⟩ : ∃ g, groups = g + 1 := ⟨groups - 1, by simp at hlength; omega⟩
    rfl
  | cons b bs ih =>
    obtain ⟨hb, hbs⟩ := List.forall_mem_cons.1 h
    rw [List.length_cons] at hlength
    obtain ⟨groups, rfl⟩ : ∃ g, groups = g + 1 := ⟨groups - 1, by omega⟩
    rw [decodeFrom, if_pos hb, ih hbs (by omega)]

theorem decodeFrom_long {bs : Bytes} {groups : Nat} {shift acc : UInt64} (h : ∀ b ∈ bs.take groups, continues b = true)
    (hlength : groups ≤ bs.length) : decodeFrom groups shift acc bs = .error .tooLong := by
  induction groups generalizing bs shift acc with
  | zero => rfl
  | succ groups ih =>
    cases bs with
    | nil => simp at hlength
    | cons b bs =>
      rw [List.take_succ_cons, List.forall_mem_cons] at h
      rw [decodeFrom, if_pos h.1, ih h.2 (by simpa using hlength)]

/-- what a byte string starts with: a varint, part of one, or more groups than there may be -/
theorem whole_or_continued (groups : Nat) (bs : Bytes) :
    (∃ whole rest, bs = whole ++ rest ∧ Whole whole ∧ whole.length ≤ groups) ∨
      (bs.length < groups ∧ ∀ b ∈ bs, continues b = true) ∨
      (groups ≤ bs.length ∧ ∀ b ∈ bs.take groups, continues b = true) := by
  induction groups generalizing bs with
  | zero => exact .inr (.inr ⟨Nat.zero_le _, by simp⟩)
  | succ groups ih =>
    cases bs with
    | nil => exact .inr (.inl ⟨Nat.succ_pos _, by simp⟩)
    | cons b bs =>
      cases hb : continues b with
      | false => exact .inl ⟨[b], bs, rfl, .last hb, by simp⟩
      | true =>
        rcases ih bs with ⟨whole, rest, rfl, hwhole, hlength⟩ | ⟨hlength, hall⟩ | ⟨hlength, hall⟩
        · exact .inl ⟨b :: whole, rest, rfl, .more hb hwhole, by simpa using hlength⟩
        · exact .inr (.inl ⟨by simpa using hlength, List.forall_mem_cons.2 ⟨hb, hall⟩⟩)
        · refine .inr (.inr ⟨by simpa using hlength, ?_⟩)
          rw [List.take_succ_cons]
          exact List.forall_mem_cons.2 ⟨hb, hall⟩

variable {bs rest : Bytes} {v : UInt64}

theorem decode_eq_ok_iff : decode bs = .ok (v, rest) ↔
    ∃ whole, bs = whole ++ rest ∧ Whole whole ∧ whole.length ≤ maxGroups ∧ v = UInt64.ofNat (number whole) := by
  constructor
  · intro h
    rcases whole_or_continued maxGroups bs with ⟨whole, after, rfl, hwhole, hlength⟩ | ⟨hlength, hall⟩ | ⟨hlength, hall⟩
    · rw [decode_whole hwhole hlength, Except.ok.injEq, Prod.mk.injEq] at h
      obtain ⟨rfl, rfl⟩ := h
      exact ⟨whole, rfl, hwhole, hlength, rfl⟩
    · rw [decode, decodeFrom_unfinished hall hlength] at h
      simp at h
    · rw [decode, decodeFrom_long hall hlength] at h
      simp at h
  · rintro ⟨whole, rfl, hwhole, hlength, rfl⟩
    exact decode_whole hwhole hlength rest

theorem decode_eq_endOfInput_iff :
    decode bs = .error .endOfInput ↔ bs.length < maxGroups ∧ ∀ b ∈ bs, continues b = true := by
  refine ⟨fun h => ?_, fun ⟨hlength, hall⟩ => decodeFrom_unfinished hall hlength⟩
  rcases whole_or_continued maxGroups bs with ⟨whole, after, rfl, hwhole, hlength⟩ | hall | ⟨hlength, hall⟩
  · rw [decode_whole hwhole hlength] at h
    simp at h
  · exact hall
  · rw [decode, decodeFrom_long hall hlength] at h
    simp at h

theorem decode_eq_tooLong_iff :
    decode bs = .error .tooLong ↔ maxGroups ≤ bs.length ∧ ∀ b ∈ bs.take maxGroups, continues b = true := by
  refine ⟨fun h => ?_, fun ⟨hlength, hall⟩ => decodeFrom_long hall hlength⟩
  rcases whole_or_continued maxGroups bs with ⟨whole, after, rfl, hwhole, hlength⟩ | ⟨hlength, hall⟩ | hall
  · rw [decode_whole hwhole hlength] at h
    simp at h
  · rw [decode, decodeFrom_unfinished hall hlength] at h
    simp at h
  · exact hall

/-- **Reading back.** A varint of a word is decoded to that word, and what follows it is left alone. -/
theorem decode_encode_append {n : Nat} (h : n < 2 ^ 64) (rest : Bytes) :
    decode (encode n ++ rest) = .ok (UInt64.ofNat n, rest) := by
  have hlength : (encode n).length ≤ maxGroups := length_encode_le (by decide) (lt_of_lt_of_le h (by decide))
  rw [decode_whole (whole_encode n) hlength, number_encode]

end ColumnStore.Varint
