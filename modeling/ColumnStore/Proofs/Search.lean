/-
Binary search over a rising sequence.

`Rising` is what a search asks of its probe: it answers for every place, smaller elements stand before the others and
greater ones after them. `Found.Fits` is what the answer says. Main result: `search_fits`.
-/
import Mathlib.Tactic
import ColumnStore.Search

namespace ColumnStore

/-- how the first `count` elements of a rising sequence compare with a target, seen through a probe -/
structure Rising (probe : Nat → Except Error Ordering) (order : Nat → Ordering) (count : Nat) : Prop where
  answers : ∀ i, i < count → probe i = .ok (order i)
  smaller : ∀ i j, i ≤ j → j < count → order j = .lt → order i = .lt
  greater : ∀ i j, i ≤ j → j < count → order i = .gt → order j = .gt

/-- the target stands at the place found, or the place found parts the smaller elements from the greater ones -/
def Found.Fits (order : Nat → Ordering) (count : Nat) : Found → Prop
  | .here i => i < count ∧ order i = .eq
  | .before k => k ≤ count ∧ (∀ i, i < k → order i = .lt) ∧ ∀ i, k ≤ i → i < count → order i = .gt

/-- no element stands where the target would -/
theorem Found.Fits.ne_eq {order : Nat → Ordering} {count k : Nat} (h : (Found.before k).Fits order count) {i : Nat}
    (hi : i < count) : order i ≠ .eq := by
  obtain ⟨-, hbelow, habove⟩ := h
  by_cases hside : i < k
  · rw [hbelow i hside]
    decide
  · rw [habove i (by omega) hi]
    decide

/-- the places that a search has ruled out hold smaller elements below and greater ones above -/
theorem searchBetween_fits {probe : Nat → Except Error Ordering} {order : Nat → Ordering} {count : Nat}
    (h : Rising probe order count) (low high : Nat) (hle : low ≤ high) (hhigh : high ≤ count)
    (hbelow : ∀ i, i < low → order i = .lt) (habove : ∀ i, high ≤ i → i < count → order i = .gt) :
    ∃ found, searchBetween probe low high = .ok found ∧ found.Fits order count := by
  induction hn : high - low using Nat.strongRecOn generalizing low high with
  | _ n ih =>
    rw [searchBetween]
    by_cases hopen : low < high
    · have hmiddle : low + (high - low) / 2 < high := by omega
      have hprobe := h.answers (low + (high - low) / 2) (by omega)
      rw [if_pos hopen]
      simp only [hprobe]
      cases hcase : order (low + (high - low) / 2) with
      | lt =>
        refine ih _ ?_ (low + (high - low) / 2 + 1) high (by omega) hhigh ?_ habove rfl
        · omega
        · intro i hi
          exact h.smaller i _ (by omega) (by omega) hcase
      | eq => exact ⟨.here _, rfl, by omega, hcase⟩
      | gt =>
        refine ih _ ?_ low (low + (high - low) / 2) (by omega) (by omega) hbelow ?_ rfl
        · omega
        · intro i hi hcount
          exact h.greater _ i hi hcount hcase
    · obtain rfl : low = high := by omega
      rw [if_neg hopen]
      exact ⟨.before low, rfl, hhigh, hbelow, habove⟩

/-- **What a search finds.** Over a rising sequence it answers, and the answer fits. -/
theorem search_fits {probe : Nat → Except Error Ordering} {order : Nat → Ordering} {count : Nat}
    (h : Rising probe order count) : ∃ found, search probe count = .ok found ∧ found.Fits order count := by
  refine searchBetween_fits h 0 count (Nat.zero_le _) (le_refl _) ?_ ?_
  · intro i hi
    omega
  · intro i hi hcount
    omega

end ColumnStore
