/-
Columns under construction: at each place the last value that was recorded there, or "no value".

Arrays only grow by a filler, so a place past the end and a place that was filled hold the same (`getD_growTo`). A
collector is therefore told by its length and by what it holds at each place (`NumberCollector.held`,
`StringCollector.held`): recording a value changes one place and covers it, padding changes none.
-/
import Mathlib.Tactic
import ColumnStore.Column.Collector

namespace ColumnStore.Column

/-! ## Arrays -/

variable {α : Type} (values : Array α) (count place : Nat) (filler value : α)

theorem size_growTo : (growTo values count filler).size = max values.size count := by
  rw [growTo, Array.size_append, Array.size_replicate]
  omega

/-- growing shows only the filler -/
theorem getD_growTo (i : Nat) : (growTo values count filler)[i]?.getD filler = values[i]?.getD filler := by
  rw [growTo, Array.getElem?_append, Array.getElem?_replicate]
  split_ifs with hinside hgrown
  · rfl
  · rw [Array.getElem?_eq_none (not_lt.1 hinside)]
    rfl
  · rw [Array.getElem?_eq_none (not_lt.1 hinside)]

/-- a value is set at a place that is there if need be -/
def record : Array α := (growTo values (place + 1) filler).setIfInBounds place value

theorem size_record : (record values place filler value).size = max values.size (place + 1) := by
  rw [record, Array.size_setIfInBounds, size_growTo]

theorem getD_record (i : Nat) :
    (record values place filler value)[i]?.getD filler = if i = place then value else values[i]?.getD filler := by
  rw [record, Array.getElem?_setIfInBounds]
  by_cases hi : i = place
  · subst hi
    rw [if_pos rfl, if_pos rfl, if_pos (by rw [size_growTo]; omega), Option.getD_some]
  · rw [if_neg (Ne.symm hi), if_neg hi, getD_growTo]

/-! ## Numbers -/

namespace NumberCollector

variable (c : NumberCollector) (document count : UInt32)

def held (c : NumberCollector) (place : Nat) : Int64 := c.values[place]?.getD missing

theorem size_add (value : Int64) : (c.add document value).values.size = max c.values.size (document.toNat + 1) :=
  size_record _ _ _ _

theorem held_add (value : Int64) (place : Nat) :
    (c.add document value).held place = if place = document.toNat then value else c.held place := getD_record _ _ _ _ _

theorem size_padTo : (c.padTo count).values.size = max c.values.size count.toNat := size_growTo _ _ _

theorem held_padTo (place : Nat) : (c.padTo count).held place = c.held place := getD_growTo _ _ _ _

theorem getElem_padTo {place : Nat} (h : place < (c.padTo count).values.toList.length) :
    (c.padTo count).values.toList[place] = c.held place := by
  rw [← held_padTo c count, held, Array.getElem_toList, Array.getElem?_eq_getElem h, Option.getD_some]

end NumberCollector

/-! ## Byte strings -/

namespace StringCollector

variable (c : StringCollector) (document count : UInt32)

def held (c : StringCollector) (place : Nat) : Bytes := c.values[place]?.getD []

theorem size_add (value : Bytes) : (c.add document value).values.size = max c.values.size (document.toNat + 1) :=
  size_record _ _ _ _

theorem held_add (value : Bytes) (place : Nat) :
    (c.add document value).held place = if place = document.toNat then value else c.held place := getD_record _ _ _ _ _

theorem size_padTo : (c.padTo count).values.size = max c.values.size count.toNat := size_growTo _ _ _

theorem held_padTo (place : Nat) : (c.padTo count).held place = c.held place := getD_growTo _ _ _ _

theorem getElem_padTo {place : Nat} (h : place < (c.padTo count).values.toList.length) :
    (c.padTo count).values.toList[place] = c.held place := by
  rw [← held_padTo c count, held, Array.getElem_toList, Array.getElem?_eq_getElem h, Option.getD_some]

end StringCollector

end ColumnStore.Column
