/-
The sorted dictionary of a column of byte strings.

`distinctStrings ws` are the distinct strings of a column and the empty string, strictly rising
(`distinctStrings_rising`, `mem_distinctStrings`). The map from strings to ordinals is made from the entries alone and
agrees with them: it knows each of them by its place, counted in 32 bits, and nothing else (`places_eq_some_iff`). So the
empty string has the ordinal 0, and no other string has it (`stringOrdinal_eq_zero_iff`).
`stringOrdinals ws` is the column of ordinals; it is sparse just when nearly all strings are empty
(`sparse_stringOrdinals_iff`).
-/
import ColumnStore.Proofs.Bytes.Order
import ColumnStore.Proofs.Column.Numbers
import ColumnStore.Proofs.Search

namespace ColumnStore.Column

open Packing Storage

namespace Dictionary

/-! ## Sorting and joining -/

theorem sort_rising (xs : List Bytes) : (sort xs).Pairwise fun a b => Bytes.order a b ≠ .gt := by
  have htrans : ∀ a b c : Bytes, (Bytes.order a b != .gt) = true → (Bytes.order b c != .gt) = true →
      (Bytes.order a c != .gt) = true := by
    intro a b c hab hbc
    rw [bne_iff_ne] at hab hbc ⊢
    exact Bytes.order_le_trans hab hbc
  have htotal : ∀ a b : Bytes, ((Bytes.order a b != .gt) || (Bytes.order b a != .gt)) = true := by
    intro a b
    rw [Bytes.order_swap a b]
    cases Bytes.order a b <;> decide
  refine (List.pairwise_mergeSort htrans htotal xs).imp ?_
  intro a b hab
  rwa [bne_iff_ne] at hab

theorem mem_sort {s : Bytes} {xs : List Bytes} : s ∈ sort xs ↔ s ∈ xs := List.mem_mergeSort

theorem mem_squeeze {s : Bytes} {xs : List Bytes} : s ∈ squeeze xs ↔ s ∈ xs := by
  fun_induction squeeze xs with
  | case1 a rest ih =>
    rw [ih]
    simp
  | case2 a b rest hne ih => rw [List.mem_cons, ih, ← List.mem_cons]
  | case3 xs _ => rfl

/-- what rises is strictly rising once equal neighbours are joined -/
theorem squeeze_rising {xs : List Bytes} (h : xs.Pairwise fun a b => Bytes.order a b ≠ .gt) :
    (squeeze xs).Pairwise fun a b => Bytes.order a b = .lt := by
  fun_induction squeeze xs with
  | case1 a rest ih => exact ih (List.pairwise_cons.1 h).2
  | case2 a b rest hne ih =>
    obtain ⟨hfirst, hrest⟩ := List.pairwise_cons.1 h
    have hab : Bytes.order a b = .lt := by
      have hle := hfirst b (List.mem_cons_self ..)
      cases hcase : Bytes.order a b with
      | lt => rfl
      | eq => exact absurd (Bytes.order_eq_iff.1 hcase) hne
      | gt => exact absurd hcase hle
    refine List.pairwise_cons.2 ⟨?_, ih hrest⟩
    intro c hc
    rcases List.mem_cons.1 (mem_squeeze.1 hc) with rfl | hc
    · exact hab
    · have hbc := (List.pairwise_cons.1 hrest).1 c hc
      cases hcase : Bytes.order b c with
      | lt => exact Bytes.order_trans hab hcase
      | eq => exact Bytes.order_eq_iff.1 hcase ▸ hab
      | gt => exact absurd hcase hbc
  | case3 xs hshort =>
    cases xs with
    | nil => exact List.Pairwise.nil
    | cons a rest =>
      cases rest with
      | nil => exact List.pairwise_singleton _ _
      | cons b rest => exact absurd rfl (hshort a b rest)

end Dictionary

/-! ## Entries -/

/-- the strings of the dictionary of a column -/
def distinctStrings (ws : List Bytes) : List Bytes := Dictionary.squeeze (Dictionary.sort ([] :: ws))

theorem ofStrings_map_some (ws : List Bytes) :
    Dictionary.ofStrings (ws.map some) = ⟨(distinctStrings ws).toArray⟩ := by
  have hall : (ws.map some).filterMap id = ws := by simp
  rw [Dictionary.ofStrings, hall, distinctStrings]

variable {ws : List Bytes} {s : Bytes}

theorem mem_distinctStrings : s ∈ distinctStrings ws ↔ s = [] ∨ s ∈ ws := by
  rw [distinctStrings, Dictionary.mem_squeeze, Dictionary.mem_sort, List.mem_cons]

theorem distinctStrings_rising (ws : List Bytes) : (distinctStrings ws).Pairwise fun a b => Bytes.order a b = .lt :=
  Dictionary.squeeze_rising (Dictionary.sort_rising _)

theorem order_distinctStrings {i j : Nat} (hij : i < j) (hj : j < (distinctStrings ws).length) :
    Bytes.order (distinctStrings ws)[i] (distinctStrings ws)[j] = .lt :=
  List.pairwise_iff_getElem.1 (distinctStrings_rising ws) i j (by omega) hj hij

theorem distinctStrings_nodup (ws : List Bytes) : (distinctStrings ws).Nodup := by
  refine (distinctStrings_rising ws).imp ?_
  rintro a b hab rfl
  rw [Bytes.order_self] at hab
  simp at hab

theorem getElem?_distinctStrings_zero (ws : List Bytes) : (distinctStrings ws)[0]? = some [] := by
  have hmem : ([] : Bytes) ∈ distinctStrings ws := mem_distinctStrings.2 (.inl rfl)
  obtain ⟨k, hk, hnil⟩ := List.mem_iff_getElem.1 hmem
  rcases Nat.eq_zero_or_pos k with rfl | hpos
  · rw [List.getElem?_eq_getElem hk, hnil]
  · -- nothing is smaller than the empty string
    have hlt := order_distinctStrings hpos hk
    rw [hnil, ← Bytes.order_gt_iff] at hlt
    generalize (distinctStrings ws)[0] = first at hlt
    cases first <;> simp [Bytes.order] at hlt

/-- the entries are the empty string and the distinct other strings -/
theorem length_distinctStrings (ws : List Bytes) :
    (distinctStrings ws).length = (ws.filter (· ≠ [])).dedup.length + 1 := by
  have hperm : (distinctStrings ws).Perm ([] :: (ws.filter (· ≠ [])).dedup) := by
    refine (List.perm_ext_iff_of_nodup (distinctStrings_nodup ws) ?_).2 ?_
    · refine List.nodup_cons.2 ⟨?_, List.nodup_dedup _⟩
      simp
    · intro s
      rw [mem_distinctStrings, List.mem_cons, List.mem_dedup, List.mem_filter]
      by_cases hs : s = [] <;> simp [hs]
  rw [hperm.length_eq, List.length_cons]

theorem count_nil_add_length_filter (ws : List Bytes) : ws.count [] + (ws.filter (· ≠ [])).length = ws.length := by
  induction ws with
  | nil => rfl
  | cons s ws ih =>
    rw [List.count_cons, List.filter_cons, List.length_cons]
    by_cases hs : s = []
    · rw [if_pos (by simpa using hs), if_neg (by simpa using hs)]
      omega
    · rw [if_neg (by simpa using hs), if_pos (by simpa using hs), List.length_cons]
      omega

theorem length_distinctStrings_le (ws : List Bytes) : (distinctStrings ws).length + ws.count [] ≤ ws.length + 1 := by
  have hdedup := (List.dedup_sublist (ws.filter (· ≠ []))).length_le
  have hsplit := count_nil_add_length_filter ws
  rw [length_distinctStrings]
  omega

/-- joining neighbours leaves strings out, and adds none -/
theorem Dictionary.squeeze_sublist (xs : List Bytes) : (squeeze xs).Sublist xs := by
  fun_induction squeeze xs with
  | case1 a rest ih => exact ih.cons a
  | case2 a b rest hne ih => exact ih.cons_cons a
  | case3 xs _ => exact List.Sublist.refl xs

theorem length_flatten_distinctStrings_le (ws : List Bytes) :
    (distinctStrings ws).flatten.length ≤ ws.flatten.length := by
  have hsublist := (Dictionary.squeeze_sublist (Dictionary.sort ([] :: ws))).map List.length
  have hperm : ((Dictionary.sort ([] :: ws)).map List.length).sum = (([] :: ws).map List.length).sum :=
    ((List.mergeSort_perm _ _).map List.length).sum_eq
  have hsum := hsublist.sum_le_sum (fun _ _ => Nat.zero_le _)
  rw [hperm] at hsum
  rw [List.length_flatten, List.length_flatten, distinctStrings]
  simpa using hsum

/-! ## Looking up -/

namespace Dictionary

variable {d : Dictionary}

/-- no two entries of the map are for one string -/
theorem places_apart (h : d.entries.toList.Nodup) :
    (d.entries.toList.zipIdx.map fun entry => (entry.1, UInt32.ofNat entry.2)).Pairwise
      fun a b => (a.1 == b.1) = false := by
  have hkeys : (d.entries.toList.zipIdx.map Prod.fst).Pairwise fun a b => (a == b) = false := by
    rw [List.zipIdx_map_fst]
    exact h.imp fun hne => beq_eq_false_iff_ne.2 hne
  exact List.pairwise_map.2 (List.pairwise_map.1 hkeys)

/-- **The map agrees with the entries.** A string has an ordinal just if it is an entry, and then that is its place. -/
theorem places_eq_some_iff (h : d.entries.toList.Nodup) {s : Bytes} {place : UInt32} :
    d.places[s]? = some place ↔ ∃ k : Nat, d.entries[k]? = some s ∧ place = UInt32.ofNat k := by
  have hfound : ∀ k : Nat, d.entries[k]? = some s → d.places[s]? = some (UInt32.ofNat k) := by
    intro k hk
    rw [← Array.getElem?_toList] at hk
    refine Std.HashMap.getElem?_ofList_of_mem (beq_self_eq_true s) (places_apart h) ?_
    exact List.mem_map.2 ⟨(s, k), List.mk_mem_zipIdx_iff_getElem?.2 hk, rfl⟩
  constructor
  · intro hplace
    by_cases hmem : s ∈ d.entries.toList
    · obtain ⟨k, hk⟩ := List.mem_iff_getElem?.1 hmem
      rw [Array.getElem?_toList] at hk
      exact ⟨k, hk, Option.some.inj (hplace.symm.trans (hfound k hk))⟩
    · have hkeys : ((d.entries.toList.zipIdx.map fun entry => (entry.1, UInt32.ofNat entry.2)).map Prod.fst).contains s =
          false := by
        rw [List.map_map, show Prod.fst ∘ (fun entry : Bytes × Nat => (entry.1, UInt32.ofNat entry.2)) = Prod.fst from rfl,
          List.zipIdx_map_fst]
        simpa using hmem
      rw [places, Std.HashMap.getElem?_ofList_of_contains_eq_false hkeys] at hplace
      simp at hplace
  · rintro ⟨k, hk, rfl⟩
    exact hfound k hk

end Dictionary

/-- the ordinal of a string in the dictionary of a column: its place -/
def stringOrdinal (ws : List Bytes) (s : Bytes) : Nat := (distinctStrings ws).idxOf s

def stringOrdinals (ws : List Bytes) : List Int64 := ws.map fun s => Int64.ofNat (stringOrdinal ws s)

theorem getElem?_stringOrdinal (h : s = [] ∨ s ∈ ws) : (distinctStrings ws)[stringOrdinal ws s]? = some s :=
  List.getElem?_idxOf (mem_distinctStrings.2 h)

theorem stringOrdinal_lt (h : s = [] ∨ s ∈ ws) : stringOrdinal ws s < (distinctStrings ws).length := by
  by_contra hno
  have hentry := getElem?_stringOrdinal h
  rw [List.getElem?_eq_none (by omega)] at hentry
  simp at hentry

theorem stringOrdinal_eq_zero_iff (h : s ∈ ws) : stringOrdinal ws s = 0 ↔ s = [] := by
  have hentry := getElem?_stringOrdinal (.inr h)
  constructor
  · intro hzero
    rw [hzero, getElem?_distinctStrings_zero, Option.some.injEq] at hentry
    exact hentry.symm
  · rintro rfl
    rcases Nat.eq_zero_or_pos (stringOrdinal ws []) with hzero | hpos
    · exact hzero
    · -- two places of one string would not rise
      have hlength : stringOrdinal ws [] < (distinctStrings ws).length := stringOrdinal_lt (.inr h)
      have hlt := order_distinctStrings hpos hlength
      have hfirst := getElem?_distinctStrings_zero ws
      rw [List.getElem?_eq_getElem hlength, Option.some.injEq] at hentry
      rw [List.getElem?_eq_getElem (by omega : 0 < (distinctStrings ws).length), Option.some.injEq] at hfirst
      rw [hentry, hfirst] at hlt
      simp [Bytes.order] at hlt

/-- a string of the column is mapped to its ordinal, counted in 32 bits -/
theorem places_ofStrings (h : s ∈ ws) :
    (Dictionary.ofStrings (ws.map some)).places[s]? = some (UInt32.ofNat (stringOrdinal ws s)) := by
  rw [ofStrings_map_some]
  refine (Dictionary.places_eq_some_iff (distinctStrings_nodup ws)).2 ⟨stringOrdinal ws s, ?_, rfl⟩
  rw [List.getElem?_toArray, getElem?_stringOrdinal (.inr h)]

theorem ordinals_map_some (hsize : (distinctStrings ws).length ≤ 2 ^ 32) :
    (Dictionary.ofStrings (ws.map some)).ordinals (ws.map some) = (stringOrdinals ws).map some := by
  rw [Dictionary.ordinals, stringOrdinals, List.map_map, List.map_map]
  refine List.map_congr_left fun s hs => ?_
  have hlt : stringOrdinal ws s < 2 ^ 32 := lt_of_lt_of_le (stringOrdinal_lt (.inr hs)) hsize
  rw [Function.comp_apply, Option.bind_some, places_ofStrings hs, Option.map_some, UInt32.toNat_ofNat',
    Nat.mod_eq_of_lt hlt]
  rfl

@[simp] theorem length_stringOrdinals (ws : List Bytes) : (stringOrdinals ws).length = ws.length := List.length_map _

theorem stringOrdinal_eq_missing_iff (hsize : (distinctStrings ws).length < 2 ^ 63) (h : s ∈ ws) :
    Int64.ofNat (stringOrdinal ws s) = missing ↔ s = [] := by
  have hlt := stringOrdinal_lt (.inr h)
  rw [← stringOrdinal_eq_zero_iff h, ← Int64.toInt_inj, Int64.toInt_ofNat_of_lt (by omega)]
  change (stringOrdinal ws s : Int) = 0 ↔ _
  omega

/-- a column of strings nearly all of which are empty -/
def MostlyEmpty (ws : List Bytes) : Prop :=
  maxTableValues < ws.length ∧ 30 * ws.length < 31 * ws.count [] ∧ ∃ s ∈ ws, s ≠ []

/-- the ordinals are stored by their present values only just when nearly all strings are empty -/
theorem sparse_stringOrdinals_iff (ws : List Bytes) (hsize : (distinctStrings ws).length < 2 ^ 63) :
    Sparse (stringOrdinals ws) ↔ MostlyEmpty ws := by
  have hcount : (stringOrdinals ws).count missing = ws.count [] := by
    rw [stringOrdinals, List.count_eq_countP, List.countP_map, List.count_eq_countP]
    refine List.countP_congr fun s hs => ?_
    simpa using stringOrdinal_eq_missing_iff hsize hs
  have hexists : (∃ v ∈ stringOrdinals ws, v ≠ missing) ↔ ∃ s ∈ ws, s ≠ [] := by
    simp only [stringOrdinals, List.mem_map, exists_exists_and_eq_and]
    refine exists_congr fun s => and_congr_right fun hs => ?_
    rw [ne_eq, stringOrdinal_eq_missing_iff hsize hs]
  rw [Sparse, MostlyEmpty, length_stringOrdinals, hcount, hexists]

end ColumnStore.Column
