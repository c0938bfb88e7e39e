/-
Columns under construction: values arrive for documents in any order, gaps are filled with "no value".
-/
import ColumnStore.Column.Stream

namespace ColumnStore.Column

def growTo {α : Type} (values : Array α) (count : Nat) (filler : α) : Array α :=
  values ++ Array.replicate (count - values.size) filler

/-- a column of numbers under construction -/
structure NumberCollector where
  values : Array Int64 := #[]

namespace NumberCollector

/-- record a value; a later one for the same document wins -/
def add (c : NumberCollector) (document : UInt32) (value : Int64) : NumberCollector :=
  ⟨(growTo c.values (document.toNat + 1) missing).setIfInBounds document.toNat value⟩

def padTo (c : NumberCollector) (count : UInt32) : NumberCollector := ⟨growTo c.values count.toNat missing⟩

def column (c : NumberCollector) : Numbers := c.values.toList.map some

end NumberCollector

/-- a column of byte strings under construction, and the bytes that it holds -/
structure StringCollector where
  values : Array Bytes := #[]
  bytesUsed : Nat := 0

namespace StringCollector

/-- record a value; a later one for the same document wins -/
def add (c : StringCollector) (document : UInt32) (value : Bytes) : StringCollector :=
  let values := growTo c.values (document.toNat + 1) []
  let replaced := values[document.toNat]?.getD []
  ⟨values.setIfInBounds document.toNat value, c.bytesUsed - replaced.length + value.length⟩

def padTo (c : StringCollector) (count : UInt32) : StringCollector :=
  { c with values := growTo c.values count.toNat [] }

def column (c : StringCollector) : Strings := c.values.toList.map some

end StringCollector

end ColumnStore.Column
