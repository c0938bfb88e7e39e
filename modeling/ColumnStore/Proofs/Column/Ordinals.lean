/-
The ordinals of a column of byte strings, nulls included.

The dictionary of a column holds its distinct strings and the empty one, rising. A document has the place of its string as
its ordinal, so the ordinals compare as the strings do (`Dictionary.Faithful`), and one that has no string has no ordinal.
`ordinals_isomorphic` puts this together for every column. An ordinal is stored in 32 bits: a dictionary may have
`2 ^ 32` entries, which those of a column of fewer documents never pass, and no more (`not_faithful`).
-/
import ColumnStore.Proofs.Column.Dictionary

namespace ColumnStore.Column

variable {values : Strings} {ws : List Bytes} {s t : Bytes} {i j k l : Nat}

/-- the strings of a column, nulls left out -/
def givenStrings (values : Strings) : List Bytes := values.filterMap id

theorem mem_givenStrings : s ∈ givenStrings values ↔ some s ∈ values := by
  simp [givenStrings]

theorem entries_ofStrings (values : Strings) :
    (Dictionary.ofStrings values).entries.toList = distinctStrings (givenStrings values) := rfl

/-- a dictionary does not know of nulls -/
theorem ofStrings_givenStrings (values : Strings) :
    Dictionary.ofStrings values = Dictionary.ofStrings ((givenStrings values).map some) := by
  rw [ofStrings_map_some]
  rfl

theorem size_ofStrings_le (values : Strings) : (Dictionary.ofStrings values).size ≤ values.length + 1 := by
  have hentries := length_distinctStrings_le (givenStrings values)
  have hgiven : (givenStrings values).length ≤ values.length := List.length_filterMap_le _ _
  rw [Dictionary.size, ← Array.length_toList, entries_ofStrings]
  omega

/-! ## Places -/

theorem place_lt_iff (hk : (distinctStrings ws)[k]? = some s) (hl : (distinctStrings ws)[l]? = some t) :
    k < l ↔ s < t := by
  obtain ⟨hklt, rfl⟩ := List.getElem?_eq_some_iff.1 hk
  obtain ⟨hllt, rfl⟩ := List.getElem?_eq_some_iff.1 hl
  rw [← Bytes.order_lt_iff]
  constructor
  · exact fun h => order_distinctStrings h hllt
  · intro h
    by_contra hno
    rcases Nat.eq_or_lt_of_le (not_lt.1 hno) with heq | hlt
    · subst heq
      rw [Bytes.order_self] at h
      simp at h
    · rw [Bytes.order_gt_iff.2 (order_distinctStrings hlt hklt)] at h
      simp at h

theorem place_eq_iff (hk : (distinctStrings ws)[k]? = some s) (hl : (distinctStrings ws)[l]? = some t) :
    k = l ↔ s = t := by
  have hlt := place_lt_iff hk hl
  have hgt := place_lt_iff hl hk
  constructor
  · rintro rfl
    exact Option.some.inj (hk.symm.trans hl)
  · rintro rfl
    rw [iff_false_right (List.lt_irrefl s)] at hlt hgt
    omega

/-! ## Stored ordinals -/

/-- the ordinal that stands for a place: as much of it as 32 bits hold -/
def storedPlace (k : Nat) : Int64 := Int64.ofNat (UInt32.ofNat k).toNat

theorem toInt_storedPlace (h : k < 2 ^ 32) : (storedPlace k).toInt = k := by
  rw [storedPlace, UInt32.toNat_ofNat', Nat.mod_eq_of_lt h, Int64.toInt_ofNat_of_lt (by omega)]

theorem getElem?_ordinals (h : values[i]? = some (some s)) :
    ∃ k, ((Dictionary.ofStrings values).ordinals values)[i]? = some (some (storedPlace k)) ∧
      (distinctStrings (givenStrings values))[k]? = some s := by
  have hgiven : s ∈ givenStrings values := mem_givenStrings.2 (List.mem_of_getElem? h)
  obtain ⟨k, hentry⟩ := List.mem_iff_getElem?.1 (mem_distinctStrings.2 (.inr hgiven))
  have hplace : (Dictionary.ofStrings values).places[s]? = some (UInt32.ofNat k) := by
    refine (Dictionary.places_eq_some_iff (distinctStrings_nodup (givenStrings values))).2 ⟨k, ?_, rfl⟩
    rw [← Array.getElem?_toList, entries_ofStrings, hentry]
  refine ⟨k, ?_, hentry⟩
  rw [Dictionary.ordinals, List.getElem?_map, h, Option.map_some, Option.bind_some, hplace, Option.map_some]
  rfl

theorem getElem?_ordinals_none_iff (values : Strings) (i : Nat) :
    ((Dictionary.ofStrings values).ordinals values)[i]? = some none ↔ values[i]? = some none := by
  constructor
  · intro h
    rw [Dictionary.ordinals, List.getElem?_map] at h
    obtain ⟨v, hv, hnone⟩ := Option.map_eq_some_iff.1 h
    cases v with
    | none => exact hv
    | some s =>
      obtain ⟨k, hk, -⟩ := getElem?_ordinals hv
      rw [Dictionary.ordinals, List.getElem?_map, hv, Option.map_some, hnone] at hk
      simp at hk
  · intro h
    rw [Dictionary.ordinals, List.getElem?_map, h]
    rfl

/-- the ordinals of documents name their strings in a dictionary, and compare as these do -/
structure Dictionary.Faithful (d : Dictionary) (values : Strings) (ordinals : Numbers) : Prop where
  entry : ∀ (i : Nat) (s : Bytes), values[i]? = some (some s) →
    ∃ o : Int64, ordinals[i]? = some (some o) ∧ 0 ≤ o.toInt ∧ d.entries[o.toInt.toNat]? = some s
  compare : ∀ (i j : Nat) (s t : Bytes) (o p : Int64), values[i]? = some (some s) → values[j]? = some (some t) →
    ordinals[i]? = some (some o) → ordinals[j]? = some (some p) → (o < p ↔ s < t) ∧ (o = p ↔ s = t)

theorem ordinals_faithful (hsize : (Dictionary.ofStrings values).size ≤ 2 ^ 32) :
    (Dictionary.ofStrings values).Faithful values ((Dictionary.ofStrings values).ordinals values) := by
  -- every ordinal of a document is a place, and 32 bits can count it
  have hplace : ∀ (i : Nat) (s : Bytes) (o : Int64), values[i]? = some (some s) →
      ((Dictionary.ofStrings values).ordinals values)[i]? = some (some o) →
      ∃ k : Nat, o.toInt = k ∧ (distinctStrings (givenStrings values))[k]? = some s := by
    intro i s o hs ho
    obtain ⟨k, hk, hentry⟩ := getElem?_ordinals hs
    obtain rfl : storedPlace k = o := by simpa [hk] using ho
    have hlt := (List.getElem?_eq_some_iff.1 hentry).1
    rw [← entries_ofStrings, Array.length_toList] at hlt
    exact ⟨k, toInt_storedPlace (lt_of_lt_of_le hlt hsize), hentry⟩
  constructor
  · intro i s hs
    obtain ⟨k, hk, -⟩ := getElem?_ordinals hs
    obtain ⟨place, hplace, hentry⟩ := hplace i s _ hs hk
    refine ⟨_, hk, by omega, ?_⟩
    rw [hplace, Int.toNat_natCast, ← Array.getElem?_toList, entries_ofStrings, hentry]
  · intro i j s t o p hs ht ho hp
    obtain ⟨k, hk, hks⟩ := hplace i s o hs ho
    obtain ⟨l, hl, hlt⟩ := hplace j t p ht hp
    constructor
    · rw [Int64.lt_iff_toInt_lt, hk, hl, Int.ofNat_lt, place_lt_iff hks hlt]
    · rw [← Int64.toInt_inj, hk, hl, Int.ofNat_inj, place_eq_iff hks hlt]

/-- past 32 bits a string that is not empty gets the ordinal of the empty one -/
theorem exists_wrapped (hsize : 2 ^ 32 < (Dictionary.ofStrings values).size) :
    ∃ (i : Nat) (s : Bytes), values[i]? = some (some s) ∧ s ≠ [] ∧
      ((Dictionary.ofStrings values).ordinals values)[i]? = some (some 0) := by
  rw [Dictionary.size, ← Array.length_toList, entries_ofStrings] at hsize
  set s := (distinctStrings (givenStrings values))[2 ^ 32] with hs
  have hentry : (distinctStrings (givenStrings values))[2 ^ 32]? = some s := List.getElem?_eq_getElem hsize
  have hne : s ≠ [] := by
    intro hnil
    have hplaces := (place_eq_iff hentry (getElem?_distinctStrings_zero _)).2 hnil
    omega
  have hgiven : some s ∈ values := by
    rcases mem_distinctStrings.1 (List.mem_of_getElem? hentry) with hnil | hgiven
    · exact absurd hnil hne
    · exact mem_givenStrings.1 hgiven
  obtain ⟨i, hi⟩ := List.mem_iff_getElem?.1 hgiven
  obtain ⟨k, hk, hplace⟩ := getElem?_ordinals hi
  obtain rfl : k = 2 ^ 32 := (place_eq_iff hplace hentry).2 rfl
  exact ⟨i, s, hi, hne, hk⟩

/-- **No more than 32 bits count.** A dictionary with more entries has ordinals that do not name its strings. -/
theorem not_faithful (hsize : 2 ^ 32 < (Dictionary.ofStrings values).size) :
    ¬ (Dictionary.ofStrings values).Faithful values ((Dictionary.ofStrings values).ordinals values) := by
  intro hfaithful
  obtain ⟨i, s, hi, hne, hzero⟩ := exists_wrapped hsize
  obtain ⟨o, ho, -, hentry⟩ := hfaithful.entry i s hi
  obtain rfl : 0 = o := by simpa [hzero] using ho
  have hfirst := getElem?_distinctStrings_zero (givenStrings values)
  rw [← entries_ofStrings, Array.getElem?_toList] at hfirst
  exact hne (Option.some.inj (hentry.symm.trans hfirst))

/-! ## Columns of numbers -/

/-- a number in decimal digits, as many as are asked for -/
def decimal : (width n : Nat) → Bytes
  | 0, _ => []
  | width + 1, n => decimal width (n / 10) ++ [UInt8.ofNat (48 + n % 10)]

/-- numbers with so many digits differ in one of them -/
theorem decimal_inj {width m n : Nat} (hm : m < 10 ^ width) (hn : n < 10 ^ width) (h : decimal width m = decimal width n) :
    m = n := by
  induction width generalizing m n with
  | zero => omega
  | succ width ih =>
    rw [Nat.pow_succ] at hm hn
    obtain ⟨hfront, hlast⟩ := List.append_inj' h rfl
    have hdigit := congrArg UInt8.toNat (List.cons.inj hlast).1
    rw [UInt8.toNat_ofNat', UInt8.toNat_ofNat'] at hdigit
    have hdiv : m / 10 = n / 10 := ih (by omega) (by omega) hfront
    omega

/-- a column of the numbers below `n`, ten digits each -/
def decimals (n : Nat) : Strings := (List.range n).map fun k => some (decimal 10 k)

theorem size_decimals {n : Nat} (h : n ≤ 10 ^ 10) : (Dictionary.ofStrings (decimals n)).size = n + 1 := by
  have hgiven : givenStrings (decimals n) = (List.range n).map (decimal 10) := by
    rw [givenStrings, decimals, List.filterMap_map]
    exact congrFun List.filterMap_eq_map _
  have hfilled : ∀ s ∈ (List.range n).map (decimal 10), s ≠ [] := by
    intro s hs
    obtain ⟨k, -, rfl⟩ := List.mem_map.1 hs
    exact List.append_ne_nil_of_right_ne_nil _ (List.cons_ne_nil _ _)
  have hnodup : ((List.range n).map (decimal 10)).Nodup := by
    refine List.Nodup.map_on (fun k hk l hl heq => ?_) List.nodup_range
    exact decimal_inj (lt_of_lt_of_le (List.mem_range.1 hk) h) (lt_of_lt_of_le (List.mem_range.1 hl) h) heq
  have hall : ((List.range n).map (decimal 10)).filter (· ≠ []) = (List.range n).map (decimal 10) :=
    List.filter_eq_self.2 fun s hs => decide_eq_true (hfilled s hs)
  rw [Dictionary.size, ← Array.length_toList, entries_ofStrings, hgiven, length_distinctStrings, hall, hnodup.dedup,
    List.length_map, List.length_range]

/-! ## Any column -/

/-- **Ordinals and strings.** The dictionary of a column rises, starts with the empty string and holds it and the strings
of the column, no others. There is one ordinal for each document, null just where the string is. As far as 32 bits count
the entries, which they do for every column whose documents they count, an ordinal is the place of its string, and
ordinals compare as their strings do. -/
theorem ordinals_isomorphic (values : Strings) :
    (Dictionary.ofStrings values).entries.toList.Pairwise (· < ·) ∧
      (Dictionary.ofStrings values).entries[0]? = some [] ∧
      (∀ s, s ∈ (Dictionary.ofStrings values).entries ↔ s = [] ∨ some s ∈ values) ∧
      ((Dictionary.ofStrings values).ordinals values).length = values.length ∧
      (∀ i : Nat, ((Dictionary.ofStrings values).ordinals values)[i]? = some none ↔ values[i]? = some none) ∧
      ((Dictionary.ofStrings values).size ≤ 2 ^ 32 →
        (Dictionary.ofStrings values).Faithful values ((Dictionary.ofStrings values).ordinals values)) ∧
      (values.length < 2 ^ 32 → (Dictionary.ofStrings values).size ≤ 2 ^ 32) := by
  refine ⟨?_, ?_, fun s => ?_, List.length_map _, getElem?_ordinals_none_iff values, ordinals_faithful, fun h => ?_⟩
  · rw [entries_ofStrings]
    exact (distinctStrings_rising _).imp Bytes.order_lt_iff.1
  · rw [← Array.getElem?_toList, entries_ofStrings, getElem?_distinctStrings_zero]
  · rw [← Array.mem_toList_iff, entries_ofStrings, mem_distinctStrings, mem_givenStrings]
  · exact (size_ofStrings_le values).trans h

/-- a string twice, a start of it, an empty string and a null -/
theorem ordinals_isomorphic_five :
    let values : Strings := [some [0x61, 0x62], none, some [], some [0x61], some [0x61, 0x62]]
    values.length < 2 ^ 32 ∧ (Dictionary.ofStrings values).size ≤ 2 ^ 32 ∧
      (Dictionary.ofStrings values).Faithful values ((Dictionary.ofStrings values).ordinals values) ∧
      ∃ o p q : Int64, ((Dictionary.ofStrings values).ordinals values)[0]? = some (some o) ∧
        ((Dictionary.ofStrings values).ordinals values)[3]? = some (some p) ∧
        ((Dictionary.ofStrings values).ordinals values)[4]? = some (some q) ∧ p < o ∧ o = q := by
  intro values
  have hlength : values.length < 2 ^ 32 := by decide
  obtain ⟨-, -, -, -, -, hfaithful, hsize⟩ := ordinals_isomorphic values
  have hsize := hsize hlength
  have hfaithful := hfaithful hsize
  obtain ⟨o, ho, -⟩ := hfaithful.entry 0 [0x61, 0x62] rfl
  obtain ⟨p, hp, -⟩ := hfaithful.entry 3 [0x61] rfl
  obtain ⟨q, hq, -⟩ := hfaithful.entry 4 [0x61, 0x62] rfl
  refine ⟨hlength, hsize, hfaithful, o, p, q, ho, hp, hq, ?_, ?_⟩
  · exact (hfaithful.compare 3 0 _ _ p o rfl rfl hp ho).1.2 (by decide)
  · exact (hfaithful.compare 0 4 _ _ o q rfl rfl ho hq).2.2 rfl

/-- `2 ^ 32` strings and the empty one: a string has the ordinal of the empty one, so ordinals do not name strings -/
theorem decimals_not_faithful :
    (∃ (i : Nat) (s : Bytes), (decimals (2 ^ 32))[i]? = some (some s) ∧ s ≠ [] ∧
      ((Dictionary.ofStrings (decimals (2 ^ 32))).ordinals (decimals (2 ^ 32)))[i]? = some (some 0)) ∧
      ¬ (Dictionary.ofStrings (decimals (2 ^ 32))).Faithful (decimals (2 ^ 32))
        ((Dictionary.ofStrings (decimals (2 ^ 32))).ordinals (decimals (2 ^ 32))) := by
  have hsize : 2 ^ 32 < (Dictionary.ofStrings (decimals (2 ^ 32))).size := by
    rw [size_decimals (by norm_num)]
    exact Nat.lt_succ_self _
  exact ⟨exists_wrapped hsize, not_faithful hsize⟩

end ColumnStore.Column
