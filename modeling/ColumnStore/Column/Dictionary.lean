/-
The sorted dictionary of a column of byte strings.

It holds each distinct string once, in byte order, and always the empty string, whose ordinal is therefore 0 and stands for
"no value". The column itself becomes the column of ordinals, which are looked up in a map of its own.
-/
import Std.Data.HashMap
import ColumnStore.Column.Stream

namespace ColumnStore.Column

/-- distinct byte strings in rising order -/
structure Dictionary where
  entries : Array Bytes

namespace Dictionary

def sort (strings : List Bytes) : List Bytes := strings.mergeSort fun a b => Bytes.order a b != .gt

/-- equal neighbours joined -/
def squeeze : List Bytes → List Bytes
  | a :: b :: rest => if a = b then squeeze (b :: rest) else a :: squeeze (b :: rest)
  | strings => strings

def ofStrings (values : Strings) : Dictionary := ⟨(squeeze (sort ([] :: values.filterMap id))).toArray⟩

def size (d : Dictionary) : Nat := d.entries.size

/-- the place of each entry, counted in 32 bits -/
def places (d : Dictionary) : Std.HashMap Bytes UInt32 :=
  Std.HashMap.ofList (d.entries.toList.zipIdx.map fun entry => (entry.1, UInt32.ofNat entry.2))

/-- the column of ordinals, nulls kept -/
def ordinals (d : Dictionary) (values : Strings) : Numbers :=
  let places := d.places
  values.map fun v => v.bind fun s => places[s]?.map fun place => Int64.ofNat place.toNat

end Dictionary

end ColumnStore.Column
