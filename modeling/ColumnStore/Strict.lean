/-
Operations that have no answer out of their range.

A program that cuts a part out of an array which has no such part, takes more from a number than it holds, divides by
zero or shifts past the end of a word does not survive it. Here such a request is a broken precondition: that no file
breaks the program then has to be shown from the checks that stand before it. One equation each says what is answered
within the range.
-/
import ColumnStore.Error.Basic

namespace ColumnStore.Strict

def wordBits : Nat := 64

/-- the bytes from one position up to another, both within the array and in order -/
def slice (a : ByteArray) (start stop : Nat) : Except Error ByteArray :=
  if start ≤ stop ∧ stop ≤ a.size then .ok (a.extract start stop) else .error (.violation .outOfRange)

/-- what is left of `a` when it holds `b` -/
def sub (a b : Nat) : Except Error Nat := if b ≤ a then .ok (a - b) else .error (.violation .overflow)

/-- how often `b` goes into `a`, rounded up -/
def divUp (a b : Nat) : Except Error Nat :=
  if b = 0 then .error (.violation .divisionByZero) else .ok ((a + b - 1) / b)

/-- how often `b` goes into `a`, and what is left over -/
def divMod (a b : Nat) : Except Error (Nat × Nat) :=
  if b = 0 then .error (.violation .divisionByZero) else .ok (a / b, a % b)

/-- a word moved up by a number of places, what leaves it at the top being lost -/
def shiftUp (w : UInt64) (places : Nat) : Except Error UInt64 :=
  if places < wordBits then .ok (w <<< UInt64.ofNat places) else .error (.violation .overflow)

variable {a : ByteArray} {start stop m n places : Nat}

theorem slice_eq (h : start ≤ stop) (hstop : stop ≤ a.size) : slice a start stop = .ok (a.extract start stop) :=
  if_pos ⟨h, hstop⟩

theorem sub_eq (h : n ≤ m) : sub m n = .ok (m - n) := if_pos h

theorem divUp_eq (h : 0 < n) : divUp m n = .ok ((m + n - 1) / n) := if_neg (Nat.ne_of_gt h)

theorem divMod_eq (h : 0 < n) : divMod m n = .ok (m / n, m % n) := if_neg (Nat.ne_of_gt h)

theorem shiftUp_eq (w : UInt64) (h : places < wordBits) : shiftUp w places = .ok (w <<< UInt64.ofNat places) := if_pos h

theorem shiftUp_one (h : places < wordBits) : ∃ w, shiftUp 1 places = .ok w ∧ w.toNat = 1 <<< places := by
  refine ⟨_, shiftUp_eq 1 h, ?_⟩
  have hplaces : (UInt64.ofNat places).toNat % 64 = places := by
    rw [UInt64.toNat_ofNat']
    unfold wordBits at h
    omega
  rw [UInt64.toNat_shiftLeft, hplaces, UInt64.toNat_one, Nat.one_shiftLeft]
  exact Nat.mod_eq_of_lt (Nat.pow_lt_pow_right (by decide) h)

end ColumnStore.Strict
