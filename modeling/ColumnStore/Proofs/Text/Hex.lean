/-
Hexadecimal digits tell their number.

Digits of one width are of one length (`length_digits`), and two numbers that need no more are told apart by them
(`digits_injective`). So a segment is told by the thirty-two digits of its identity (`SegmentId.toHex_injective`).
-/
import Mathlib.Tactic
import ColumnStore.Segment.Id

namespace ColumnStore

namespace Text.Hex

theorem length_digits (width n : Nat) : (digits width n).length = width := by
  induction width generalizing n with
  | zero => rfl
  | succ width ih => rw [digits, List.length_append, ih, List.length_singleton]

theorem digit_injective {m n : Nat} (hm : m < 16) (hn : n < 16) (h : digit m = digit n) : m = n := by
  have hall : ∀ a b : Fin 16, digit a.val = digit b.val → a = b := by decide
  exact congrArg Fin.val (hall ⟨m, hm⟩ ⟨n, hn⟩ h)

/-- the last digit tells the rest of a division, the others the quotient -/
theorem digits_injective {width m n : Nat} (hm : m < 16 ^ width) (hn : n < 16 ^ width)
    (h : digits width m = digits width n) : m = n := by
  induction width generalizing m n with
  | zero => omega
  | succ width ih =>
    rw [digits, digits] at h
    obtain ⟨hfirst, hlast⟩ := List.append_inj h (by rw [length_digits, length_digits])
    rw [pow_succ] at hm hn
    have hquotient := ih (by omega) (by omega) hfirst
    have hrest := digit_injective (Nat.mod_lt m (by decide)) (Nat.mod_lt n (by decide)) (List.singleton_inj.1 hlast)
    omega

/-- a number below a power of sixteen has no more digits than its exponent says -/
theorem width_le {n count : Nat} (hcount : 0 < count) (hn : n < 16 ^ count) : width n ≤ count := by
  have hlog : n.log2 < 4 * count := by
    by_cases hzero : n = 0
    · rw [hzero, Nat.log2_zero]
      omega
    · rw [Nat.log2_lt hzero, pow_mul]
      exact hn
  rw [width]
  omega

end Text.Hex

namespace SegmentId

open Text.Hex

variable {id other : SegmentId}

theorem toHex_eq (id : SegmentId) : id.toHex.toList = digits 32 id.bits.toNat := by
  have hwidth : width id.bits.toNat ≤ 32 := width_le (by decide) id.bits.isLt
  rw [toHex, padded, String.toList_ofList, max_eq_left hwidth]

theorem length_toHex (id : SegmentId) : id.toHex.toList.length = 32 := by rw [toHex_eq, length_digits]

theorem toHex_injective (h : id.toHex.toList = other.toHex.toList) : id = other := by
  rw [toHex_eq, toHex_eq] at h
  have hbits := BitVec.eq_of_toNat_eq (digits_injective id.bits.isLt other.bits.isLt h)
  obtain ⟨bits⟩ := id
  obtain ⟨bits'⟩ := other
  exact congrArg SegmentId.mk hbits

end SegmentId

end ColumnStore
