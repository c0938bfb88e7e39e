/-
Distinct values and their table.

- `decodeTable_iff`: the table of the values in order of their ordinals is the inverse of the ordinals;
- `nodup_decodeTable`: so it holds every value once, and `mem_decodeTable_add` says what becomes of it when a value is
  taken in;
- `add_numbers`, `tryAddAll_numbers`: a table that holds the distinct values of those seen so far, in order of first
  occurrence, goes on to hold those of one more value, and of many (`dedup_table`).
-/
import Mathlib.Tactic
import ColumnStore.Column.Distinct

namespace ColumnStore.Column.Distinct

/-! ## The table -/

theorem size_fill (table : Array Int64) (entries : List (Int64 × Nat)) : (fill table entries).size = table.size := by
  unfold fill
  induction entries generalizing table with
  | nil => rfl
  | cons e entries ih => rw [List.foldl_cons, ih, Array.size_setIfInBounds]

/-- a place that is written with one value only holds it in the end -/
theorem getElem?_fill {table : Array Int64} {entries : List (Int64 × Nat)} {v : Int64} {i : Nat} (hi : i < table.size)
    (hmem : (v, i) ∈ entries ∨ table[i]? = some v) (hsame : ∀ w, (w, i) ∈ entries → w = v) :
    (fill table entries)[i]? = some v := by
  induction entries generalizing table with
  | nil => simpa [fill] using hmem
  | cons e entries ih =>
    obtain ⟨w, j⟩ := e
    have hrest : ∀ x, (x, i) ∈ entries → x = v := fun x hx => hsame x (List.mem_cons_of_mem _ hx)
    refine ih (by rwa [Array.size_setIfInBounds]) ?_ hrest
    by_cases hj : j = i
    · subst hj
      obtain rfl := hsame w List.mem_cons_self
      exact Or.inr (by simp [hi])
    · rcases hmem with hmem | hold
      · rcases List.mem_cons.1 hmem with heq | hmem
        · exact absurd (Prod.mk.inj heq).2.symm hj
        · exact Or.inl hmem
      · exact Or.inr (by simpa [Array.getElem?_setIfInBounds, hj] using hold)

theorem length_decodeTable (m : Distinct) : m.decodeTable.length = m.size := by
  rw [decodeTable, Array.length_toList, size_fill, Array.size_replicate]

theorem getElem?_decodeTable {m : Distinct} {v : Int64} {i : Nat} (h : m.ordinals.find v = some i) :
    m.decodeTable[i]? = some v := by
  rw [decodeTable, Array.getElem?_toList]
  refine getElem?_fill ?_ (Or.inl ((m.ordinals.mem_entries_iff v i).2 h)) fun w hw => ?_
  · rw [Array.size_replicate]
    exact m.bounded v i h
  · exact m.injective w v i ((m.ordinals.mem_entries_iff w i).1 hw) h

/-- **The table is the inverse of the ordinals.** -/
theorem decodeTable_iff (m : Distinct) (v : Int64) (i : Nat) :
    m.decodeTable[i]? = some v ↔ m.ordinals.find v = some i := by
  refine ⟨fun h => ?_, getElem?_decodeTable⟩
  obtain ⟨hi, -⟩ := List.getElem?_eq_some_iff.1 h
  rw [length_decodeTable] at hi
  obtain ⟨w, hw⟩ := m.onto i hi
  have hplace := getElem?_decodeTable hw
  rw [h, Option.some.injEq] at hplace
  rwa [hplace]

theorem mem_decodeTable_iff (m : Distinct) (v : Int64) : v ∈ m.decodeTable ↔ ∃ i, m.ordinals.find v = some i := by
  rw [List.mem_iff_getElem?]
  exact exists_congr fun i => m.decodeTable_iff v i

/-- no value stands in the table twice, because it has one ordinal only -/
theorem nodup_decodeTable (m : Distinct) : m.decodeTable.Nodup := by
  rw [List.nodup_iff_getElem?_ne_getElem?]
  intro i j hij hj heq
  have hvalue : m.decodeTable[j]? = some m.decodeTable[j] := List.getElem?_eq_getElem hj
  rw [hvalue] at heq
  have hfirst := (m.decodeTable_iff _ i).1 heq
  have hsecond := (m.decodeTable_iff _ j).1 hvalue
  rw [hfirst, Option.some.injEq] at hsecond
  omega

theorem ordinal_eq_ok_iff (m : Distinct) (v : Int64) (i : Nat) : m.ordinal v = .ok i ↔ m.decodeTable[i]? = some v := by
  rw [decodeTable_iff, ordinal]
  cases m.ordinals.find v <;> simp

theorem ordinal_eq_error_iff (m : Distinct) (v : Int64) :
    m.ordinal v = .error (.violation (.unknownValue v)) ↔ v ∉ m.decodeTable := by
  rw [mem_decodeTable_iff, ordinal]
  cases m.ordinals.find v <;> simp

theorem ordinal_ok {m : Distinct} {v : Int64} (h : v ∈ m.decodeTable) :
    ∃ i, m.ordinal v = .ok i ∧ i < m.size ∧ m.decodeTable[i]? = some v := by
  obtain ⟨i, hplace⟩ := List.mem_iff_getElem?.1 h
  obtain ⟨hi, -⟩ := List.getElem?_eq_some_iff.1 hplace
  rw [length_decodeTable] at hi
  exact ⟨i, (m.ordinal_eq_ok_iff v i).2 hplace, hi, hplace⟩

/-! ## Taking a value in -/

/-- a value is there already, or it gets the next ordinal -/
theorem add_cases (m : Distinct) (v : Int64) :
    ((m.add v).1 = m ∧ (m.add v).2 = false) ∨ ((m.add v).1.size = m.size + 1 ∧ (m.add v).2 = true) := by
  unfold add
  split
  · exact Or.inl ⟨rfl, rfl⟩
  · exact Or.inr ⟨rfl, rfl⟩

/-- a value that is taken in is there from then on, and others stay what they were -/
theorem mem_decodeTable_add (m : Distinct) (v w : Int64) : w ∈ (m.add v).1.decodeTable ↔ w ∈ m.decodeTable ∨ w = v := by
  rw [mem_decodeTable_iff, mem_decodeTable_iff]
  unfold add
  split
  · next i known =>
    refine ⟨Or.inl, ?_⟩
    rintro (h | rfl)
    · exact h
    · exact ⟨i, known⟩
  · next fresh =>
    simp only [insert, Ordinals.find_set]
    by_cases hw : w = v
    · simp [hw]
    · simp [hw]

/-! ## Order of first occurrence -/

theorem decodeTable_insert (m : Distinct) (v : Int64) (fresh : m.ordinals.find v = none) :
    (m.insert v fresh).decodeTable = m.decodeTable ++ [v] := by
  have hlength := m.length_decodeTable
  refine List.ext_getElem? fun i => Option.ext fun w => ?_
  rw [decodeTable_iff, insert, Ordinals.find_set]
  rcases Nat.lt_trichotomy i m.size with hlt | rfl | hgt
  · rw [List.getElem?_append_left (by omega), decodeTable_iff]
    by_cases hw : w = v
    · subst hw
      rw [if_pos rfl, fresh]
      simp only [Option.some.injEq, reduceCtorEq, iff_false]
      omega
    · rw [if_neg hw]
  · have hlast : m.ordinals.find w ≠ some m.size := fun h => Nat.lt_irrefl _ (m.bounded w _ h)
    rw [List.getElem?_append_right (by omega), hlength, Nat.sub_self, List.getElem?_cons_zero]
    by_cases hw : w = v
    · rw [if_pos hw, hw]
      exact iff_of_true rfl rfl
    · rw [if_neg hw]
      exact iff_of_false hlast (by simpa using Ne.symm hw)
  · have hpast : m.ordinals.find w ≠ some i := fun h => by
      have := m.bounded w i h
      omega
    have hnone : (m.decodeTable ++ [v])[i]? = none := by
      rw [List.getElem?_eq_none_iff, List.length_append, hlength, List.length_singleton]
      omega
    rw [hnone]
    split_ifs
    · exact iff_of_false (by simpa using Nat.ne_of_lt hgt) (by simp)
    · exact iff_of_false hpast (by simp)

theorem eraseDups_concat (vs : List Int64) (v : Int64) :
    (vs ++ [v]).eraseDups = if v ∈ vs then vs.eraseDups else vs.eraseDups ++ [v] := by
  rw [List.eraseDups_append]
  by_cases h : v ∈ vs <;> simp [h, List.removeAll, List.eraseDups_cons]

variable {m : Distinct} {seen vs : List Int64}

/-- **One value.** The table of what was seen becomes that of what was seen and this value, which is new just if it was
not seen. -/
theorem add_numbers (h : m.decodeTable = seen.eraseDups) (v : Int64) :
    (m.add v).1.decodeTable = (seen ++ [v]).eraseDups ∧ (m.add v).2 = decide (v ∉ seen) := by
  have hmem : v ∈ seen ↔ ∃ i, m.ordinals.find v = some i := by rw [← mem_decodeTable_iff, h, List.mem_eraseDups]
  rw [eraseDups_concat]
  unfold add
  split
  · next i known =>
    have hseen := hmem.2 ⟨i, known⟩
    simp [hseen, h]
  · next fresh =>
    have hunseen : v ∉ seen := by simp [hmem, fresh]
    simp [hunseen, decodeTable_insert, h]

/-- **Many values.** As long as the distinct ones leave room, the table of what was seen becomes that of all, and each value
is new just if it was not seen before its turn. -/
theorem tryAddAll_numbers (h : m.decodeTable = seen.eraseDups) (hroom : (seen ++ vs).eraseDups.length < capacity) :
    ∃ m' news, m.tryAddAll vs = .ok (m', news) ∧ m'.decodeTable = (seen ++ vs).eraseDups ∧ news.length = vs.length ∧
      ∀ i (hi : i < vs.length), news[i]? = some (decide (vs[i] ∉ seen ++ vs.take i)) := by
  induction vs generalizing m seen with
  | nil => exact ⟨m, [], rfl, by rw [h, List.append_nil], rfl, by simp⟩
  | cons v vs ih =>
    have hsize : m.size < capacity := by
      rw [← length_decodeTable, h]
      rw [List.eraseDups_append, List.length_append] at hroom
      omega
    have hcut : seen ++ v :: vs = seen ++ [v] ++ vs := by simp
    obtain ⟨htable, hnew⟩ := add_numbers h v
    obtain ⟨m', news, hrest, htable', hlength, hnews⟩ := ih htable (by rwa [← hcut])
    refine ⟨m', (m.add v).2 :: news, ?_, by rw [htable', hcut], by simp [hlength], fun i hi => ?_⟩
    · rw [tryAddAll, tryAdd, if_pos hsize]
      change (do let r ← (m.add v).1.tryAddAll vs; pure (r.1, (m.add v).2 :: r.2)) = _
      rw [hrest]
      rfl
    · cases i with
      | zero => simp [hnew]
      | succ i =>
        have hnext := hnews i (by simpa using hi)
        simpa using hnext

/-- **Numbering.** Values of which fewer than 32767 are distinct are all taken in:
- a value is new just where it occurs first, and the size counts the distinct values;
- the ordinal of a value is its place among the distinct values in order of first occurrence, and a signed word of 16
  bits holds it; a value that was not taken in has none;
- the table has one value for every ordinal, and the two are inverse to each other. -/
theorem dedup_table (vs : List Int64) (hfew : vs.eraseDups.length < 32767) :
    ∃ m news, ({} : Distinct).tryAddAll vs = .ok (m, news) ∧
      (news.length = vs.length ∧ ∀ i (hi : i < vs.length), news[i]? = some (decide (vs[i] ∉ vs.take i))) ∧
      m.size = vs.eraseDups.length ∧
      (∀ v i, m.ordinal v = .ok i ↔ vs.eraseDups[i]? = some v) ∧
      (∀ v i, m.ordinal v = .ok i → (Int16.ofNat i).toInt = i) ∧
      (∀ v, m.ordinal v = .error (.violation (.unknownValue v)) ↔ v ∉ vs) ∧
      m.decodeTable.length = m.size ∧
      (∀ v ∈ vs, ∃ i, m.ordinal v = .ok i ∧ m.decodeTable[i]? = some v) ∧
      ∀ i (hi : i < m.decodeTable.length), m.ordinal m.decodeTable[i] = .ok i := by
  have hempty : ({} : Distinct).decodeTable = ([] : List Int64).eraseDups :=
    List.eq_nil_of_length_eq_zero (length_decodeTable _)
  have hroom : ([] ++ vs).eraseDups.length < capacity := hfew
  obtain ⟨m, news, hall, htable, hlength, hnews⟩ := tryAddAll_numbers hempty hroom
  rw [List.nil_append] at htable
  have hsize : m.size = vs.eraseDups.length := by rw [← length_decodeTable, htable]
  refine ⟨m, news, hall, ⟨hlength, fun i hi => by simpa using hnews i hi⟩, hsize, fun v i => ?_, fun v i h => ?_,
    fun v => ?_, length_decodeTable m, fun v hv => ?_, fun i hi => ?_⟩
  · rw [ordinal_eq_ok_iff, htable]
  · rw [ordinal_eq_ok_iff] at h
    obtain ⟨hi, -⟩ := List.getElem?_eq_some_iff.1 h
    rw [length_decodeTable, hsize] at hi
    exact Int16.toInt_ofNat_of_lt (by omega)
  · rw [ordinal_eq_error_iff, htable, List.mem_eraseDups]
  · obtain ⟨i, hi, -, hplace⟩ := ordinal_ok (m := m) (v := v) (by rw [htable, List.mem_eraseDups]; exact hv)
    exact ⟨i, hi, hplace⟩
  · rw [ordinal_eq_ok_iff]
    exact List.getElem?_eq_getElem hi

/-- the values at the bounds of a signed byte and next to them, with two repeated -/
theorem dedup_table_bounds :
    let vs : List Int64 := [-129, -128, 127, 128, -128, 3, -129]
    vs.eraseDups.length < 32767 ∧ ∃ m news, ({} : Distinct).tryAddAll vs = .ok (m, news) ∧
      news = [true, true, true, true, false, true, false] ∧ m.size = 5 ∧ m.ordinal (-129) = .ok 0 ∧ m.ordinal 3 = .ok 4 ∧
      m.ordinal 129 = .error (.violation (.unknownValue 129)) ∧
      ∃ i, m.ordinal 127 = .ok i ∧ m.decodeTable[i]? = some 127 := by
  intro vs
  have hfew : vs.eraseDups.length < 32767 := by decide
  obtain ⟨m, news, hall, ⟨hlength, hnews⟩, hsize, hordinal, -, hunknown, -, hback, -⟩ := dedup_table vs hfew
  refine ⟨hfew, m, news, hall, List.ext_getElem? fun i => ?_, hsize, (hordinal _ _).2 (by decide),
    (hordinal _ _).2 (by decide), (hunknown _).2 (by decide), hback 127 (by decide)⟩
  have hfirst : ∀ i : Fin 7, some (decide (vs[i] ∉ vs.take i)) =
      [true, true, true, true, false, true, false][i.val]? := by decide
  by_cases hi : i < 7
  · exact (hnews i hi).trans (hfirst ⟨i, hi⟩)
  · rw [List.getElem?_eq_none (by rw [hlength]; exact not_lt.1 hi), List.getElem?_eq_none (not_lt.1 hi)]

end ColumnStore.Column.Distinct
