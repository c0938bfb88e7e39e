/-
The choice of a layout against its rule.

`layoutRule` chooses by the whole column: its length, its missing values, its distinct values and its range. A scan sees
one value at a time and gives the distinct values up at the first one too many. Main result: `layout_choice`, the scan
ends with the numbers of the column (`Stats.Exact`) and with the layout of the rule, in whatever order the values come.
-/
import Mathlib.Data.Finset.Card
import ColumnStore.Proofs.Column.Stats

namespace ColumnStore.Column

/-- the layout of a column of numbers, by all of its values at once -/
def layoutRule (vs : List Int64) : Layout :=
  if vs.toFinset.card ≤ 1 then .const
  else if 256 < vs.length ∧ 30 * vs.length < 31 * vs.count 0 then .indirect
  else if vs.toFinset.card ≤ 256 then
    if 17 ≤ vs.toFinset.card ∧ vs.all (fun v => -128 ≤ v ∧ v ≤ 127) then .uncompressed else .table
  else .delta

/-- the rule does not look at the order of the values -/
theorem layoutRule_perm {vs ws : List Int64} (h : ws.Perm vs) : layoutRule ws = layoutRule vs := by
  have hdistinct : ws.toFinset = vs.toFinset := List.toFinset_eq_of_perm ws vs h
  simp only [layoutRule, hdistinct, h.length_eq, h.count_eq, h.all_eq]

/-! ## Widths of ordinals -/

/-- so many ordinals need no more than some bits if and only if there are no more of them than those bits can tell apart -/
theorem bitsRequired_le_iff {size bits : Nat} (hsize : size < 2 ^ 64) (hbits : 1 ≤ bits) :
    Packing.bitsRequired (UInt64.ofNat (size - 1)) ≤ bits ↔ size ≤ 2 ^ bits := by
  have hpos : 0 < 2 ^ bits := by positivity
  have hnat : (UInt64.ofNat (size - 1)).toNat = size - 1 := by
    rw [UInt64.toNat_ofNat', Nat.mod_eq_of_lt (by omega)]
  rw [Packing.bitsRequired, max_le_iff, Packing.bitsNeeded_le_iff, hnat]
  omega

theorem tableWidth_eq {size : Nat} (hsize : size < 2 ^ 64) :
    Packing.roundedWidth (Packing.bitsRequired (UInt64.ofNat (size - 1))) =
      if size ≤ 2 then 1 else if size ≤ 4 then 2 else if size ≤ 16 then 4 else 8 := by
  simp only [Packing.roundedWidth, bitsRequired_le_iff hsize, Nat.le_refl, Nat.one_le_ofNat]
  norm_num

/-- the width of a table is the least of the four widths that tells its values apart -/
theorem tableWidth_isLeast {size : Nat} (hsize : size ≤ 256) :
    IsLeast {w | w ∈ [1, 2, 4, 8] ∧ size ≤ 2 ^ w}
      (Packing.roundedWidth (Packing.bitsRequired (UInt64.ofNat (size - 1)))) := by
  rw [tableWidth_eq (by omega)]
  refine ⟨?_, ?_⟩
  · split_ifs <;> refine ⟨by decide, ?_⟩ <;> omega
  · rintro w ⟨hw, hfit⟩
    simp only [List.mem_cons, List.not_mem_nil, or_false] at hw
    rcases hw with rfl | rfl | rfl | rfl <;> split_ifs <;> omega

namespace Stats

/-! ## What a scan ends with -/

/-- statistics that give the numbers of a column exactly -/
structure Exact (s : Stats) (vs : List Int64) : Prop where
  count : s.count = vs.length
  missing : s.missing = vs.count 0
  extremes_nil : vs = [] → s.least = 0 ∧ s.greatest = 0
  least : vs ≠ [] → s.least ∈ vs ∧ ∀ v ∈ vs, s.least ≤ v
  greatest : vs ≠ [] → s.greatest ∈ vs ∧ ∀ v ∈ vs, v ≤ s.greatest
  kept : s.distinct.isSome ↔ vs.toFinset.card ≤ 256
  table : ∀ m, s.distinct = some m → m.decodeTable.Nodup ∧ m.decodeTable.toFinset = vs.toFinset
  width : vs.toFinset.card ≤ 256 →
    ∃ w, s.tableWidth? = some w ∧ IsLeast {w | w ∈ [1, 2, 4, 8] ∧ vs.toFinset.card ≤ 2 ^ w} w

/-- a scan without nulls ends; only the extremes of an empty column are not what it has found -/
theorem collect_eq (name : String) (vs : List Int64) :
    ∃ t, Describes t vs ∧
      collect name (vs.map some) = .ok (if vs = [] then { t with least := 0, greatest := 0 } else t) := by
  obtain ⟨t, hscan, ht⟩ := scan_describes name describes_nil vs
  rw [List.nil_append] at ht
  refine ⟨t, ht, ?_⟩
  have hcount : t.count = 0 ↔ vs = [] := by rw [ht.count, List.length_eq_zero_iff]
  simp only [collect, hscan, hcount]
  rfl

namespace Describes

variable {s : Stats} {vs : List Int64} {m : Distinct}

/-- the values that were kept are those of the column, each once -/
theorem decodeTable_eq (h : Describes s vs) (hm : s.distinct = some m) :
    m.decodeTable.Nodup ∧ m.decodeTable.toFinset = vs.toFinset := by
  refine ⟨m.nodup_decodeTable, ?_⟩
  ext v
  rw [List.mem_toFinset, List.mem_toFinset, (h.members m hm).2]

theorem size_eq (h : Describes s vs) (hm : s.distinct = some m) : m.size = vs.toFinset.card := by
  obtain ⟨hnodup, hsame⟩ := h.decodeTable_eq hm
  rw [← m.length_decodeTable, ← hsame, List.toFinset_card_of_nodup hnodup]

/-- the distinct values are given up if and only if there are too many of them in the end -/
theorem card_of_none (h : Describes s vs) (hnone : s.distinct = none) : 256 < vs.toFinset.card := by
  obtain ⟨seen, hnodup, hmany, hseen⟩ := h.many hnone
  have hsubset : seen.toFinset ⊆ vs.toFinset := by
    intro v hv
    rw [List.mem_toFinset] at hv ⊢
    exact hseen v hv
  have hcard := Finset.card_le_card hsubset
  rw [List.toFinset_card_of_nodup hnodup] at hcard
  unfold maxTableValues at hmany
  omega

theorem card_of_some (h : Describes s vs) (hm : s.distinct = some m) : vs.toFinset.card ≤ 256 := by
  rw [← h.size_eq hm]
  exact (h.members m hm).1

theorem isSome_distinct_iff (h : Describes s vs) : s.distinct.isSome ↔ vs.toFinset.card ≤ 256 := by
  cases hd : s.distinct with
  | none =>
    have := h.card_of_none hd
    simpa using this
  | some m => simpa using h.card_of_some hd

theorem tableWidth?_isLeast (h : Describes s vs) (hcard : vs.toFinset.card ≤ 256) :
    ∃ w, s.tableWidth? = some w ∧ IsLeast {w | w ∈ [1, 2, 4, 8] ∧ vs.toFinset.card ≤ 2 ^ w} w := by
  obtain ⟨m, hm⟩ := Option.isSome_iff_exists.1 (h.isSome_distinct_iff.2 hcard)
  refine ⟨_, tableWidth?_eq hm, ?_⟩
  rw [h.size_eq hm]
  exact tableWidth_isLeast hcard

/-- the least value is found, because it is the least of the values there are -/
theorem least_mem (h : Describes s vs) (hne : vs ≠ []) : s.least ∈ vs := by
  have hmem := Packing.least_mem hne
  have hleast : s.least = Packing.least vs :=
    Int64.le_antisymm (h.least_le _ hmem) (h.le_least _ fun v hv => Packing.least_le hv)
  rwa [hleast]

theorem greatest_mem (h : Describes s vs) (hne : vs ≠ []) : s.greatest ∈ vs := by
  have hmem := Packing.greatest_mem hne
  have hgreatest : s.greatest = Packing.greatest vs :=
    Int64.le_antisymm (h.greatest_le _ fun v hv => Packing.le_greatest hv) (h.le_greatest _ hmem)
  rwa [hgreatest]

theorem fitsByte_iff (h : Describes s vs) : s.fitsByte = true ↔ vs.all (fun v => -128 ≤ v ∧ v ≤ 127) = true := by
  rw [fitsByte, Bool.and_eq_true, decide_eq_true_eq, decide_eq_true_eq, List.all_eq_true]
  simp only [decide_eq_true_eq]
  constructor
  · rintro ⟨hlow, hhigh⟩ v hv
    exact ⟨Int64.le_trans hlow (h.least_le v hv), Int64.le_trans (h.le_greatest v hv) hhigh⟩
  · intro hall
    exact ⟨h.le_least _ fun v hv => (hall v hv).1, h.greatest_le _ fun v hv => (hall v hv).2⟩

/-- ordinals take a byte if and only if there are more than sixteen values -/
theorem tableWidth?_eq_eight_iff (h : Describes s vs) (hm : s.distinct = some m) :
    s.tableWidth? = some 8 ↔ 17 ≤ vs.toFinset.card := by
  have hcard := h.card_of_some hm
  rw [tableWidth?_eq hm, h.size_eq hm, tableWidth_eq (by omega), Option.some.injEq]
  split_ifs <;> omega

/-- **The layout follows the rule.** -/
theorem layout_eq (h : Describes s vs) (hlen : vs.length < 2 ^ 32) : s.layout = layoutRule vs := by
  have hsparse := h.isSparse_iff hlen
  unfold layout layoutRule
  cases hd : s.distinct with
  | none =>
    have hcard := h.card_of_none hd
    have hconst : ¬ vs.toFinset.card ≤ 1 := by omega
    have htable : ¬ vs.toFinset.card ≤ 256 := by omega
    simp only [hsparse, if_neg hconst, if_neg htable]
    rfl
  | some m =>
    have hcard := h.card_of_some hd
    have hwidth := h.tableWidth?_eq_eight_iff hd
    simp only [h.size_eq hd, hsparse, Bool.and_eq_true, decide_eq_true_eq, hwidth, h.fitsByte_iff, if_pos hcard]
    rfl

theorem exact (h : Describes s vs) (hne : vs ≠ []) : Exact s vs where
  count := h.count
  missing := h.missing
  extremes_nil := fun hnil => absurd hnil hne
  least := fun _ => ⟨h.least_mem hne, h.least_le⟩
  greatest := fun _ => ⟨h.greatest_mem hne, h.le_greatest⟩
  kept := h.isSome_distinct_iff
  table := fun _ hm => h.decodeTable_eq hm
  width := h.tableWidth?_isLeast

theorem exact_nil (h : Describes s []) : Exact { s with least := 0, greatest := 0 } [] where
  count := h.count
  missing := h.missing
  extremes_nil := fun _ => ⟨rfl, rfl⟩
  least := fun hne => absurd rfl hne
  greatest := fun hne => absurd rfl hne
  kept := h.isSome_distinct_iff
  table := fun _ hm => h.decodeTable_eq hm
  width := h.tableWidth?_isLeast

/-- an empty column is constant, whatever its extremes are set to -/
theorem layout_nil (h : Describes s []) : { s with least := 0, greatest := 0 }.layout = layoutRule [] := by
  obtain ⟨m, hm⟩ := Option.isSome_iff_exists.1 (h.isSome_distinct_iff.2 (by decide))
  have hsize : m.size = 0 := h.size_eq hm
  simp [layout, layoutRule, hm, hsize]

end Describes

theorem collect_exact (name : String) (vs : List Int64) (hlen : vs.length < 2 ^ 32) :
    ∃ s, collect name (vs.map some) = .ok s ∧ s.Exact vs ∧ s.layout = layoutRule vs := by
  obtain ⟨t, ht, hcollect⟩ := collect_eq name vs
  refine ⟨_, hcollect, ?_⟩
  by_cases hne : vs = []
  · subst hne
    exact ⟨ht.exact_nil, ht.layout_nil⟩
  · rw [if_neg hne]
    exact ⟨ht.exact hne, ht.layout_eq hlen⟩

/-- **The choice of a layout.** A scan without nulls ends with the numbers of the column and with the layout of the rule,
and any other order of the values leads to the same layout. -/
theorem layout_choice (name : String) (vs : List Int64) (hlen : vs.length < 2 ^ 32) :
    ∃ s, collect name (vs.map some) = .ok s ∧ s.Exact vs ∧ s.layout = layoutRule vs ∧
      ∀ ws : List Int64, ws.Perm vs → ∃ t, collect name (ws.map some) = .ok t ∧ t.layout = s.layout := by
  obtain ⟨s, hcollect, hexact, hlayout⟩ := collect_exact name vs hlen
  refine ⟨s, hcollect, hexact, hlayout, fun ws hperm => ?_⟩
  obtain ⟨t, ht, -, hsame⟩ := collect_exact name ws (by rwa [hperm.length_eq])
  exact ⟨t, ht, by rw [hsame, hlayout, layoutRule_perm hperm]⟩

/-- 300 missing values of 310 are exactly thirty of thirty-one, which is not enough to leave them out -/
theorem layout_choice_boundary :
    let vs : List Int64 := List.replicate 300 0 ++ [1, 2, 3, 4, 5, 6, 7, 8, 9, 10]
    vs.length < 2 ^ 32 ∧ ∃ s, collect "f" (vs.map some) = .ok s ∧ s.missing = 300 ∧ s.layout = .table ∧
      s.tableWidth? = some 4 := by
  intro vs
  have hlen : vs.length = 310 := by decide +kernel
  have hmissing : vs.count 0 = 300 := by decide +kernel
  have hcard : vs.toFinset.card = 11 := by decide +kernel
  have hrule : layoutRule vs = .table := by decide +kernel
  obtain ⟨s, hcollect, hexact, hlayout, -⟩ := layout_choice "f" vs (by omega)
  obtain ⟨w, hw, ⟨hfour, hfit⟩, hleast⟩ := hexact.width (by omega)
  have hle : w ≤ 4 := hleast ⟨by decide, by omega⟩
  have hwidth : w = 4 := by
    simp only [List.mem_cons, List.not_mem_nil, or_false] at hfour
    rcases hfour with rfl | rfl | rfl | rfl <;> omega
  exact ⟨by omega, s, hcollect, hexact.missing.trans hmissing, hlayout.trans hrule, by rw [hw, hwidth]⟩

end Stats

end ColumnStore.Column
