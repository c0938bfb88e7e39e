/-
The distinct values of a column, numbered in order of first occurrence.

Values of a signed byte, which most columns are made of, have a slot each; any other value is looked up in a hash map. The
two are one table of ordinals (`find_set`), and a `Distinct` keeps it one to one with the numbers below its size.
-/
import Std.Data.HashMap
import ColumnStore.Error.Basic

namespace ColumnStore.Column

/-! ## Slots -/

/-- the slot of a value of a signed byte -/
def byteSlot? (v : Int64) : Option (Fin 256) :=
  if -128 ≤ v ∧ v ≤ 127 then some (Fin.ofNat 256 (v + 128).toNatClampNeg) else none

def slotValue (slot : Fin 256) : Int64 := Int64.ofNat slot - 128

theorem toInt_slotValue (slot : Fin 256) : (slotValue slot).toInt = (slot : Int) - 128 := by
  have offset : (128 : Int64).toInt = 128 := rfl
  rw [slotValue, Int64.toInt_sub, Int64.toInt_ofNat_of_lt (by omega), offset, Int.bmod_eq_of_le (by omega) (by omega)]

/-- a slot belongs to its value and to no other -/
theorem byteSlot?_eq_some_iff {v : Int64} {slot : Fin 256} : byteSlot? v = some slot ↔ v = slotValue slot := by
  have low : (-128 : Int64).toInt = -128 := rfl
  have high : (127 : Int64).toInt = 127 := rfl
  have offset : (128 : Int64).toInt = 128 := rfl
  have range : (-128 ≤ v ∧ v ≤ 127) ↔ (-128 ≤ v.toInt ∧ v.toInt ≤ 127) := by
    rw [Int64.le_iff_toInt_le, Int64.le_iff_toInt_le, low, high]
  have place : -128 ≤ v.toInt → v.toInt ≤ 127 → (v + 128).toNatClampNeg = (v.toInt + 128).toNat := by
    intro atLeast atMost
    rw [← Int64.toNat_toInt, Int64.toInt_add, offset, Int.bmod_eq_of_le (by omega) (by omega)]
  rw [byteSlot?, ← Int64.toInt_inj, toInt_slotValue]
  split
  · next inside =>
    obtain ⟨atLeast, atMost⟩ := range.1 inside
    rw [Option.some.injEq, Fin.ext_iff, Fin.val_ofNat, place atLeast atMost]
    omega
  · next outside =>
    rw [range] at outside
    simp only [reduceCtorEq, false_iff]
    omega

/-! ## Ordinals -/

theorem apart_empty (v : Int64) (i : Nat) (known : (∅ : Std.HashMap Int64 Nat)[v]? = some i) : byteSlot? v = none := by
  rw [Std.HashMap.getElem?_empty] at known
  cases known

/-- ordinals of values: in the slots, and of the values that have none -/
structure Ordinals where
  slots : Vector (Option Nat) 256 := Vector.replicate 256 none
  other : Std.HashMap Int64 Nat := ∅
  apart : ∀ v i, other[v]? = some i → byteSlot? v = none := by exact apart_empty

namespace Ordinals

def find (o : Ordinals) (v : Int64) : Option Nat :=
  match byteSlot? v with
  | some slot => o.slots[slot]
  | none => o.other[v]?

def set (o : Ordinals) (v : Int64) (i : Nat) : Ordinals :=
  match wide : byteSlot? v with
  | some slot => { o with slots := o.slots.set slot (some i) }
  | none => { o with
    other := o.other.insert v i
    apart := by
      intro w j known
      rw [Std.HashMap.getElem?_insert] at known
      split at known
      · next same => rw [← eq_of_beq same, wide]
      · exact o.apart w j known }

/-- all values that have an ordinal, those with a slot in front -/
def entries (o : Ordinals) : List (Int64 × Nat) :=
  (List.finRange 256).filterMap (fun slot => o.slots[slot].map (slotValue slot, ·)) ++ o.other.toList

@[simp] theorem find_empty (v : Int64) : ({} : Ordinals).find v = none := by
  unfold find
  split <;> simp

theorem bounded_empty (v : Int64) (i : Nat) (known : ({} : Ordinals).find v = some i) : i < 0 := by
  rw [find_empty] at known
  cases known

theorem injective_empty (v w : Int64) (i : Nat) (known : ({} : Ordinals).find v = some i)
    (_ : ({} : Ordinals).find w = some i) : v = w := by
  rw [find_empty] at known
  cases known

theorem onto_empty (i : Nat) (below : i < 0) : ∃ v, ({} : Ordinals).find v = some i := absurd below i.not_lt_zero

theorem find_set (o : Ordinals) (v w : Int64) (i : Nat) : (o.set v i).find w = if w = v then some i else o.find w := by
  unfold set
  split
  · next slot known =>
    have same : byteSlot? w = some slot ↔ w = v := by
      rw [byteSlot?_eq_some_iff, byteSlot?_eq_some_iff.1 known]
    unfold find
    split
    · next other hother =>
      have match_iff : (slot : Nat) = other ↔ w = v := by
        rw [← same, hother, Option.some.injEq, Fin.ext_iff, eq_comm]
      simp only [Fin.getElem_fin, Vector.getElem_set, match_iff]
    · next hother =>
      rw [if_neg]
      rintro rfl
      rw [hother] at known
      cases known
  · next wide =>
    unfold find
    split
    · next other hother =>
      rw [if_neg]
      rintro rfl
      rw [hother] at wide
      cases wide
    · simp only [Std.HashMap.getElem?_insert, beq_iff_eq, eq_comm (a := w)]

theorem mem_entries_iff (o : Ordinals) (v : Int64) (i : Nat) : (v, i) ∈ o.entries ↔ o.find v = some i := by
  rw [entries, List.mem_append, Std.HashMap.mem_toList_iff_getElem?_eq_some, List.mem_filterMap]
  have slotted : (∃ slot ∈ List.finRange 256, o.slots[slot].map (slotValue slot, ·) = some (v, i)) ↔
      ∃ slot, byteSlot? v = some slot ∧ o.slots[slot] = some i := by
    constructor
    · rintro ⟨slot, -, h⟩
      obtain ⟨j, hj, heq⟩ := Option.map_eq_some_iff.1 h
      obtain ⟨rfl, rfl⟩ := Prod.mk.inj heq
      exact ⟨slot, byteSlot?_eq_some_iff.2 rfl, hj⟩
    · rintro ⟨slot, hslot, hi⟩
      refine ⟨slot, List.mem_finRange slot, ?_⟩
      rw [hi, byteSlot?_eq_some_iff.1 hslot]
      rfl
  rw [slotted, find]
  split
  · next slot known =>
    constructor
    · rintro (⟨other, hother, hi⟩ | hi)
      · obtain rfl : slot = other := Option.some.inj (known.symm.trans hother)
        exact hi
      · rw [o.apart v i hi] at known
        cases known
    · exact fun hi => Or.inl ⟨slot, known, hi⟩
  · next wide =>
    constructor
    · rintro (⟨slot, hslot, -⟩ | hi)
      · rw [wide] at hslot
        cases hslot
      · exact hi
    · exact Or.inr

end Ordinals

/-! ## Distinct values -/

/-- distinct values: their ordinals are the numbers below the size -/
structure Distinct where
  ordinals : Ordinals := {}
  size : Nat := 0
  bounded : ∀ v i, ordinals.find v = some i → i < size := by exact Ordinals.bounded_empty
  injective : ∀ v w i, ordinals.find v = some i → ordinals.find w = some i → v = w := by exact Ordinals.injective_empty
  onto : ∀ i, i < size → ∃ v, ordinals.find v = some i := by exact Ordinals.onto_empty

namespace Distinct

/-- a new last value -/
def insert (m : Distinct) (v : Int64) (fresh : m.ordinals.find v = none) : Distinct where
  ordinals := m.ordinals.set v m.size
  size := m.size + 1
  bounded := by
    intro w i
    have old := m.bounded w i
    grind [Ordinals.find_set]
  injective := by
    intro w x i
    have old := m.injective w x i
    have below := m.bounded
    grind [Ordinals.find_set]
  onto := by
    intro i below
    by_cases last : i = m.size
    · exact ⟨v, by rw [Ordinals.find_set, if_pos rfl, last]⟩
    · obtain ⟨w, hw⟩ := m.onto i (by omega)
      refine ⟨w, ?_⟩
      grind [Ordinals.find_set]

/-- take a value in, and say whether it is new -/
def add (m : Distinct) (v : Int64) : Distinct × Bool :=
  match known : m.ordinals.find v with
  | some _ => (m, false)
  | none => (m.insert v known, true)

/-- most values of a table, whose ordinals have to fit a signed word of 16 bits -/
def capacity : Nat := 0x7fff

/-- take a value in, and say whether it is new; a table that is kept past its capacity is refused -/
def tryAdd (m : Distinct) (v : Int64) : Except Error (Distinct × Bool) :=
  if m.size < capacity then .ok (m.add v) else .error (.violation .overflow)

/-- take several values in, and say of each whether it was new -/
def tryAddAll (m : Distinct) : List Int64 → Except Error (Distinct × List Bool)
  | [] => .ok (m, [])
  | v :: vs => do
    let (m, new) ← m.tryAdd v
    let (m, news) ← m.tryAddAll vs
    return (m, new :: news)

/-- the ordinal of a value that was taken in -/
def ordinal (m : Distinct) (v : Int64) : Except Error Nat :=
  match m.ordinals.find v with
  | some i => .ok i
  | none => .error (.violation (.unknownValue v))

/-- write values to the places of their ordinals -/
def fill (table : Array Int64) (entries : List (Int64 × Nat)) : Array Int64 :=
  entries.foldl (fun table e => table.setIfInBounds e.2 e.1) table

/-- the values in order of their ordinals -/
def decodeTable (m : Distinct) : List Int64 := (fill (Array.replicate m.size 0) m.ordinals.entries).toList

end Distinct

end ColumnStore.Column
