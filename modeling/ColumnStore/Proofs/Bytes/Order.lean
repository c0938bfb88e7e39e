/-
The order of byte strings is a linear order.

- `order_eq_iff`: strings that compare equal are equal;
- `order_swap`: comparing the other way round gives the other answer;
- `order_trans`: smaller than smaller is smaller;
- `order_lt_iff`: it is the lexicographic order of the bytes.
-/
import Mathlib.Tactic
import ColumnStore.Bytes.Basic

namespace ColumnStore.Bytes

theorem order_self (a : Bytes) : order a a = .eq := by
  induction a with
  | nil => rfl
  | cons x a ih => rw [order, if_neg (UInt8.lt_irrefl x), if_neg (UInt8.lt_irrefl x), ih]

theorem order_eq_iff {a b : Bytes} : order a b = .eq ↔ a = b := by
  constructor
  · intro h
    induction a generalizing b with
    | nil =>
      cases b with
      | nil => rfl
      | cons y b => simp [order] at h
    | cons x a ih =>
      cases b with
      | nil => simp [order] at h
      | cons y b =>
        rw [order] at h
        split_ifs at h with hlt hgt
        obtain rfl : x = y := UInt8.le_antisymm (UInt8.not_lt.1 hgt) (UInt8.not_lt.1 hlt)
        rw [ih h]
  · rintro rfl
    exact order_self a

theorem order_swap (a b : Bytes) : order b a = (order a b).swap := by
  induction a generalizing b with
  | nil => cases b <;> rfl
  | cons x a ih =>
    cases b with
    | nil => rfl
    | cons y b =>
      rw [order, order]
      by_cases hlt : x < y
      · have hno : ¬ y < x := UInt8.not_lt.2 (UInt8.le_of_lt hlt)
        rw [if_pos hlt, if_neg hno, if_pos hlt]
        rfl
      · by_cases hgt : y < x
        · simp only [if_neg hlt, if_pos hgt]
          rfl
        · rw [if_neg hlt, if_neg hgt, if_neg hgt, if_neg hlt, ih]

theorem order_gt_iff {a b : Bytes} : order a b = .gt ↔ order b a = .lt := by
  rw [order_swap b a]
  cases order b a <;> decide

theorem order_trans {a b c : Bytes} (hab : order a b = .lt) (hbc : order b c = .lt) : order a c = .lt := by
  induction a generalizing b c with
  | nil =>
    cases c with
    | nil => cases b <;> simp [order] at hab hbc
    | cons z c => rfl
  | cons x a ih =>
    cases b with
    | nil => simp [order] at hab
    | cons y b =>
      cases c with
      | nil => simp [order] at hbc
      | cons z c =>
        rw [order] at hab hbc ⊢
        by_cases hxy : x < y
        · have hyz : y ≤ z := by
            by_contra hno
            rw [if_neg (UInt8.not_lt.2 (UInt8.le_of_lt (UInt8.not_le.1 hno))), if_pos (UInt8.not_le.1 hno)] at hbc
            simp at hbc
          rw [if_pos (UInt8.lt_of_lt_of_le hxy hyz)]
        · rw [if_neg hxy] at hab
          split_ifs at hab with hyx
          obtain rfl : x = y := UInt8.le_antisymm (UInt8.not_lt.1 hyx) (UInt8.not_lt.1 hxy)
          split_ifs at hbc ⊢ with hxz hzx
          · rfl
          · exact ih hab hbc

theorem order_le_trans {a b c : Bytes} (hab : order a b ≠ .gt) (hbc : order b c ≠ .gt) : order a c ≠ .gt := by
  have hcases : ∀ {p q : Bytes}, order p q ≠ .gt → order p q = .lt ∨ p = q := by
    intro p q h
    cases hpq : order p q with
    | lt => exact .inl rfl
    | eq => exact .inr (order_eq_iff.1 hpq)
    | gt => exact absurd hpq h
  rcases hcases hab with hlt | rfl
  · rcases hcases hbc with hlt' | rfl
    · rw [order_trans hlt hlt']
      decide
    · exact hab
  · exact hbc

theorem order_lt_iff {a b : Bytes} : order a b = .lt ↔ a < b := by
  induction a generalizing b with
  | nil => cases b <;> simp [order]
  | cons x a ih =>
    cases b with
    | nil => simp [order]
    | cons y b =>
      rw [order, List.cons_lt_cons_iff]
      by_cases hlt : x < y
      · simp [hlt]
      · by_cases hgt : y < x
        · have hne : x ≠ y := fun h => hlt (h ▸ hgt)
          simp [hlt, hgt, hne]
        · have heq : x = y := UInt8.le_antisymm (UInt8.not_lt.1 hgt) (UInt8.not_lt.1 hlt)
          simp [heq, ih]

end ColumnStore.Bytes
