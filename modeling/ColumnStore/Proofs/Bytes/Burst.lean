/-
What a 32-bit checksum notices: every change that stays within four consecutive bytes.

The register is a linear feedback shift register, and three facts about one shift carry everything:
- `shift_xor`: it is linear in exclusive or;
- `shift_injective`: it loses nothing, because the highest bit of the polynomial is set, so the bit shifted out can be
  read off the result;
- `toNat_shift_of_even`: a register whose lowest bit is clear only moves down.
By the last two, up to four bytes fed in one after the other are one word fed in at once (`feedAll_eq_shifts`), and that
word can be read off the register (`feedAll_bytes_injective`). What comes after them cannot undo the difference
(`feedAll_injective`). Main result: `checksum_ne_of_damaged`.
-/
import ColumnStore.Proofs.Bytes.Values
import ColumnStore.Bytes.Crc32

namespace ColumnStore.Crc32

/-! ## One shift -/

theorem and_one_eq_one_iff (r : UInt32) : r &&& 1 = 1 ↔ r.toNat % 2 = 1 := by
  rw [← UInt32.toNat_inj, UInt32.toNat_and]
  simp [Nat.and_one_is_mod]

/-- what the bit shifted out adds to the register -/
def feedback (out : Bool) : BitVec 32 := if out then polynomial.toBitVec else 0#32

/-- the bit shifted out comes back as the highest one -/
theorem msb_feedback (out : Bool) : (feedback out).msb = out := by
  cases out <;> rfl

theorem feedback_xor (a b : Bool) : feedback (a ^^ b) = feedback a ^^^ feedback b := by
  cases a <;> cases b <;> simp [feedback]

theorem toBitVec_shift (r : UInt32) :
    (shift r).toBitVec = (r.toBitVec >>> 1) ^^^ feedback (r.toBitVec.getLsbD 0) := by
  have hbit : (r &&& 1 = 1) ↔ r.toBitVec.getLsbD 0 = true := by
    rw [and_one_eq_one_iff, BitVec.getLsbD, Nat.testBit_zero, decide_eq_true_iff]
    rfl
  unfold shift feedback
  by_cases h : r.toBitVec.getLsbD 0 = true
  · rw [if_pos (hbit.2 h), if_pos h]
    simp
  · rw [if_neg (fun hr => h (hbit.1 hr)), if_neg h]
    simp

theorem shift_xor (a b : UInt32) : shift (a ^^^ b) = shift a ^^^ shift b := by
  apply UInt32.toBitVec_inj.1
  rw [UInt32.toBitVec_xor, toBitVec_shift, toBitVec_shift, toBitVec_shift, UInt32.toBitVec_xor,
    BitVec.ushiftRight_xor_distrib, BitVec.getLsbD_xor, feedback_xor]
  ac_rfl

theorem shift_injective : Function.Injective shift := by
  intro a b h
  have hword : (shift a).toBitVec = (shift b).toBitVec := by rw [h]
  rw [toBitVec_shift, toBitVec_shift] at hword
  have hlow : a.toBitVec.getLsbD 0 = b.toBitVec.getLsbD 0 := by
    have hmsb := congrArg BitVec.msb hword
    rw [BitVec.msb_xor, BitVec.msb_xor, msb_feedback, msb_feedback] at hmsb
    simpa using hmsb
  rw [hlow] at hword
  have hhigh : a.toBitVec >>> 1 = b.toBitVec >>> 1 := BitVec.xor_left_inj _ |>.1 hword
  apply UInt32.toBitVec_inj.1
  apply BitVec.eq_of_getLsbD_eq
  intro i _
  cases i with
  | zero => exact hlow
  | succ i =>
    have hbit := congrArg (BitVec.getLsbD · i) hhigh
    simpa [Nat.add_comm 1 i] using hbit

theorem toNat_shift_of_even {r : UInt32} (h : r.toNat % 2 = 0) : (shift r).toNat = r.toNat / 2 := by
  have hbit : ¬ (r &&& 1 = 1) := by rw [and_one_eq_one_iff]; omega
  rw [shift, if_neg hbit, UInt32.toNat_shiftRight]
  simp [Nat.shiftRight_eq_div_pow]

/-! ## Several shifts -/

theorem shifts_add (m n : Nat) (r : UInt32) : shifts (m + n) r = shifts n (shifts m r) := by
  induction m generalizing r with
  | zero => rw [Nat.zero_add, shifts]
  | succ m ih => rw [Nat.add_right_comm, shifts, shifts, ih]

theorem shifts_xor (n : Nat) (a b : UInt32) : shifts n (a ^^^ b) = shifts n a ^^^ shifts n b := by
  induction n generalizing a b with
  | zero => rfl
  | succ n ih => rw [shifts, shifts, shifts, shift_xor, ih]

theorem shifts_injective (n : Nat) : Function.Injective (shifts n) := by
  induction n with
  | zero => exact fun _ _ h => h
  | succ n ih => exact fun _ _ h => shift_injective (ih h)

/-- a register whose low bits are clear only moves down -/
theorem toNat_shifts_of_dvd {n : Nat} {r : UInt32} (h : 2 ^ n ∣ r.toNat) : (shifts n r).toNat = r.toNat / 2 ^ n := by
  induction n generalizing r with
  | zero => simp [shifts]
  | succ n ih =>
    have heven : r.toNat % 2 = 0 := Nat.mod_eq_zero_of_dvd (dvd_trans (dvd_pow_self 2 n.succ_ne_zero) h)
    have hnext := toNat_shift_of_even heven
    rw [shifts, ih (by rw [hnext]; exact Nat.dvd_div_of_mul_dvd (by rwa [← Nat.pow_succ'])), hnext,
      Nat.div_div_eq_div_mul, ← Nat.pow_succ']

/-! ## Bytes -/

theorem feed_injective (b : UInt8) : Function.Injective (feed · b) := by
  intro x y h
  exact UInt32.xor_left_inj b.toUInt32 |>.1 (shifts_injective 8 h)

theorem feedAll_injective (bs : Bytes) : Function.Injective (feedAll · bs) := by
  induction bs with
  | nil => exact fun _ _ h => h
  | cons b bs ih => exact fun _ _ h => feed_injective b (ih h)

/-- up to four bytes as one word -/
def word (bs : Bytes) : UInt32 := UInt32.ofNat (Bytes.value bs)

theorem toNat_word {bs : Bytes} (h : bs.length ≤ 4) : (word bs).toNat = Bytes.value bs := by
  have hlt := Bytes.value_lt bs
  have hle : 256 ^ bs.length ≤ 256 ^ 4 := Nat.pow_le_pow_right (by decide) h
  rw [word, UInt32.toNat_ofNat', Nat.mod_eq_of_lt (by omega)]

theorem word_injective {xs ys : Bytes} (hlen : xs.length = ys.length) (h4 : xs.length ≤ 4) (h : word xs = word ys) :
    xs = ys := by
  apply Bytes.value_inj hlen
  rw [← toNat_word h4, ← toNat_word (hlen ▸ h4), h]

/-- the first byte of a word goes in by itself, the others follow as a word of their own -/
theorem shifts_eight_word {b : UInt8} {bs : Bytes} (h : (b :: bs).length ≤ 4) (r : UInt32) :
    shifts 8 (r ^^^ word (b :: bs)) = feed r b ^^^ word bs := by
  have h3 : bs.length ≤ 3 := Nat.le_of_succ_le_succ h
  have hlt : Bytes.value bs < 256 ^ 3 :=
    lt_of_lt_of_le (Bytes.value_lt bs) (Nat.pow_le_pow_right (by decide) h3)
  set rest : UInt32 := UInt32.ofNat (256 * Bytes.value bs) with hrest
  have hrestNat : rest.toNat = 256 * Bytes.value bs := by
    rw [hrest, UInt32.toNat_ofNat', Nat.mod_eq_of_lt (by omega)]
  have hsplit : word (b :: bs) = b.toUInt32 ^^^ rest := by
    apply UInt32.toNat_inj.1
    have hb := b.toNat_lt
    rw [toNat_word h, UInt32.toNat_xor, hrestNat, Bytes.value_cons, UInt8.toNat_toUInt32]
    apply Nat.eq_of_testBit_eq
    intro i
    rw [Nat.add_comm, show 256 * Bytes.value bs = 2 ^ 8 * Bytes.value bs from rfl, Nat.testBit_xor,
      Nat.testBit_two_pow_mul_add _ (show b.toNat < 2 ^ 8 from hb), Nat.testBit_two_pow_mul]
    by_cases hi : i < 8
    · simp [hi, show ¬ 8 ≤ i by omega]
    · have hzero : b.toNat.testBit i = false :=
        Nat.testBit_lt_two_pow (lt_of_lt_of_le hb (Nat.pow_le_pow_right (by decide) (by omega : 8 ≤ i)))
      simp [hi, hzero, show 8 ≤ i by omega]
  have hmove : shifts 8 rest = word bs := by
    apply UInt32.toNat_inj.1
    rw [toNat_shifts_of_dvd (by rw [hrestNat]; exact Dvd.intro _ rfl), hrestNat, toNat_word (by omega)]
    omega
  rw [hsplit, ← UInt32.xor_assoc, shifts_xor, hmove]
  rfl

/-- up to four bytes fed in one after the other are one word fed in at once -/
theorem feedAll_eq_shifts {bs : Bytes} (h : bs.length ≤ 4) (r : UInt32) :
    feedAll r bs = shifts (8 * bs.length) (r ^^^ word bs) := by
  induction bs generalizing r with
  | nil => simp [feedAll, shifts, word]
  | cons b bs ih =>
    have hstep : feedAll r (b :: bs) = feedAll (feed r b) bs := rfl
    rw [hstep, ih (Nat.le_of_succ_le h), ← shifts_eight_word h, ← shifts_add, List.length_cons, Nat.mul_succ,
      Nat.add_comm]

/-- up to four bytes can be read off the register -/
theorem feedAll_bytes_injective {xs ys : Bytes} (hlen : xs.length = ys.length) (h4 : xs.length ≤ 4) (r : UInt32)
    (h : feedAll r xs = feedAll r ys) : xs = ys := by
  rw [feedAll_eq_shifts h4, feedAll_eq_shifts (hlen ▸ h4), ← hlen] at h
  exact word_injective hlen h4 (UInt32.xor_right_inj r |>.1 (shifts_injective _ h))

/-! ## Damage -/

/-- other bytes of the same number, which differ from the first in at most four consecutive places -/
structure Damaged (bs damaged : Bytes) : Prop where
  length_eq : damaged.length = bs.length
  ne : damaged ≠ bs
  window : ∃ p, ∀ i, i < p ∨ p + 4 ≤ i → damaged[i]? = bs[i]?

/-- a window of four places cuts damaged bytes into what stands before it, what was changed, and what stands after -/
theorem Damaged.split {bs damaged : Bytes} (h : Damaged bs damaged) :
    ∃ before xs ys after, bs = before ++ xs ++ after ∧ damaged = before ++ ys ++ after ∧ xs.length = ys.length ∧
      xs.length ≤ 4 ∧ xs ≠ ys := by
  obtain ⟨p, hp⟩ := h.window
  have htake : damaged.take p = bs.take p := by
    apply List.ext_getElem?
    intro i
    rw [List.getElem?_take, List.getElem?_take]
    split
    · exact hp i (Or.inl ‹_›)
    · rfl
  have hdrop : (damaged.drop p).drop 4 = (bs.drop p).drop 4 := by
    apply List.ext_getElem?
    intro i
    rw [List.drop_drop, List.drop_drop, List.getElem?_drop, List.getElem?_drop]
    exact hp _ (Or.inr (by omega))
  have hcut : ∀ l : Bytes, l = l.take p ++ (l.drop p).take 4 ++ (l.drop p).drop 4 := fun l => by
    rw [List.append_assoc, List.take_append_drop, List.take_append_drop]
  refine ⟨bs.take p, (bs.drop p).take 4, (damaged.drop p).take 4, (bs.drop p).drop 4, hcut bs, ?_, ?_, ?_, ?_⟩
  · rw [← htake, ← hdrop]
    exact hcut damaged
  · simp [h.length_eq]
  · simp
  · intro hxs
    apply h.ne
    rw [hcut damaged, htake, hdrop, ← hxs, ← hcut bs]

/-- **Every burst is noticed.** Bytes that were changed in at most four consecutive places have another checksum. -/
theorem checksum_ne_of_damaged {bs damaged : Bytes} (h : Damaged bs damaged) : checksum damaged ≠ checksum bs := by
  obtain ⟨before, xs, ys, after, rfl, rfl, hlen, h4, hne⟩ := h.split
  intro heq
  have hregister : feedAll initial (before ++ ys ++ after) = feedAll initial (before ++ xs ++ after) := by
    unfold checksum finish at heq
    have := congrArg (~~~ ·) heq
    simpa using this
  rw [feedAll_append, feedAll_append, feedAll_append, feedAll_append] at hregister
  exact hne (feedAll_bytes_injective hlen h4 _ (feedAll_injective after hregister).symm)

end ColumnStore.Crc32
