/-
Byte strings as numbers.

`value` reads a byte string as a number in base 256, least significant byte first. The results say how it meets the list
operations, so that packed data can be reasoned about as one number:
- `value_append`, `value_drop`: concatenation, and the bytes after some;
- `value_inj`: byte strings of one length are equal if their values are;
- `littleEndian_value`: writing the value of a byte string gives its bytes back.
-/
import Mathlib.Tactic
import ColumnStore.Bytes.Basic

namespace ColumnStore.Bytes

@[simp] theorem value_nil : value [] = 0 := rfl

@[simp] theorem value_cons (b : UInt8) (bs : Bytes) : value (b :: bs) = b.toNat + 256 * value bs := rfl

theorem base_pow (n : Nat) : 256 ^ n = 2 ^ (8 * n) := by rw [Nat.pow_mul]

/-- a digit below a number that has fewer digits -/
theorem add_mul_lt {a b m n : Nat} (ha : a < m) (hb : b < n) : a + m * b < m * n :=
  calc a + m * b < m + m * b := by omega
    _ = m * (b + 1) := by ring
    _ ≤ m * n := Nat.mul_le_mul_left m hb

theorem value_lt (bs : Bytes) : value bs < 256 ^ bs.length := by
  induction bs with
  | nil => simp
  | cons b bs ih =>
    rw [value_cons, List.length_cons, Nat.pow_succ']
    exact add_mul_lt b.toNat_lt ih

theorem value_append (xs ys : Bytes) : value (xs ++ ys) = value xs + 256 ^ xs.length * value ys := by
  induction xs with
  | nil => simp
  | cons x xs ih =>
    rw [List.cons_append, value_cons, value_cons, ih, List.length_cons, Nat.pow_succ]
    ring

/-- the bytes after the first ones hold the high digits -/
theorem value_drop (n : Nat) (bs : Bytes) : value (bs.drop n) = value bs / 256 ^ n := by
  induction bs generalizing n with
  | nil => simp
  | cons b bs ih =>
    cases n with
    | zero => simp
    | succ n =>
      have hb := b.toNat_lt
      rw [List.drop_succ_cons, value_cons, ih, Nat.pow_succ', ← Nat.div_div_eq_div_mul]
      congr 1
      omega

/-- one byte is one digit; past the end the digits are zero -/
theorem value_digit (n : Nat) (bs : Bytes) : (bs[n]?.getD 0).toNat = value bs / 256 ^ n % 256 := by
  have hd : value (bs.drop n) % 256 = (bs[n]?.getD 0).toNat := by
    cases h : bs.drop n with
    | nil => simp [List.getElem?_eq_none (List.drop_eq_nil_iff.1 h)]
    | cons b rest =>
      have hb := b.toNat_lt
      have hn : bs[n]? = some b := by
        rw [← List.head?_drop, h]
        rfl
      rw [hn, value_cons, Option.getD_some]
      omega
  rw [← hd, value_drop]

theorem value_inj {xs ys : Bytes} (hlen : xs.length = ys.length) (h : value xs = value ys) : xs = ys := by
  induction xs generalizing ys with
  | nil => exact (List.length_eq_zero_iff.1 hlen.symm).symm
  | cons x xs ih =>
    cases ys with
    | nil => simp at hlen
    | cons y ys =>
      have hx := x.toNat_lt
      have hy := y.toNat_lt
      rw [value_cons, value_cons] at h
      have hhead : x.toNat = y.toNat := by omega
      rw [UInt8.toNat_inj.1 hhead, ih (by simpa using hlen) (by omega)]

theorem value_littleEndian (width n : Nat) : value (littleEndian width n) = n % 256 ^ width := by
  induction width generalizing n with
  | zero => simp [littleEndian, Nat.mod_one]
  | succ width ih =>
    have h : (UInt8.ofNat n).toNat = n % 256 := by simp [UInt8.toNat_ofNat']
    rw [littleEndian, value, ih, h, Nat.pow_succ', Nat.mod_mul]

theorem littleEndian_value (bs : Bytes) : littleEndian bs.length (value bs) = bs :=
  value_inj (by simp) (by rw [value_littleEndian, Nat.mod_eq_of_lt (value_lt bs)])

@[simp] theorem value_replicate_zero (n : Nat) : value (List.replicate n 0) = 0 := by
  induction n with
  | zero => rfl
  | succ n ih => simp [List.replicate_succ, ih]

theorem value_set (bs : Bytes) {n : Nat} (b : UInt8) (h : n < bs.length) :
    value (bs.set n b) + 256 ^ n * (bs[n]?.getD 0).toNat = value bs + 256 ^ n * b.toNat := by
  induction bs generalizing n with
  | nil => simp at h
  | cons c bs ih =>
    cases n with
    | zero =>
      simp only [List.set_cons_zero, List.getElem?_cons_zero, Option.getD_some, value_cons]
      omega
    | succ n =>
      have hrest := ih (by simpa using h)
      simp only [List.set_cons_succ, List.getElem?_cons_succ, value_cons, Nat.pow_succ', Nat.mul_assoc]
      omega

/-! ## Arrays -/

@[simp] theorem length_ofArray (a : ByteArray) : (ofArray a).length = a.size := rfl

theorem ofArray_inj {a b : ByteArray} (h : ofArray a = ofArray b) : a = b := by
  cases a
  cases b
  simpa [ofArray] using h

theorem getElem?_ofArray (a : ByteArray) {i : Nat} (h : i < a.size) : (ofArray a)[i]? = some a[i] :=
  List.getElem?_eq_getElem h

theorem ofArray_set (a : ByteArray) {i : Nat} (b : UInt8) (h : i < a.size) :
    ofArray (a.set i b h) = (ofArray a).set i b := by
  simp [ofArray, ByteArray.set]

theorem ofArray_append (a b : ByteArray) : ofArray (a ++ b) = ofArray a ++ ofArray b := by
  simp [ofArray]

theorem ofArray_extract (a : ByteArray) (start stop : Nat) :
    ofArray (a.extract start stop) = ((ofArray a).take stop).drop start := by
  simp [ofArray, ByteArray.data_extract, List.drop_take]

end ColumnStore.Bytes
