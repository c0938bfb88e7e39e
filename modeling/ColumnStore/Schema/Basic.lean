/-
The columns of a segment: a schema lists their names and value types, and a column is known by its place in that list.

Names may repeat; a look-up by name finds the last column of that name.
-/
namespace ColumnStore

/-- what one document holds in a column -/
inductive ValueType where
  /-- a signed 64-bit integer; zero stands for "no value" -/
  | int
  /-- a 64-bit float, kept by its bit pattern -/
  | float
  /-- a byte string -/
  | bytes
  /-- a byte string, stored through a sorted dictionary -/
  | sortedBytes
  deriving DecidableEq, Repr

namespace ValueType

def name : ValueType → String
  | int => "i64"
  | float => "f64"
  | bytes => "bytes"
  | sortedBytes => "sorted_bytes"

def ofName? (name : String) : Option ValueType :=
  [int, float, bytes, sortedBytes].find? fun t => t.name == name

end ValueType

abbrev FieldNumber := UInt32

structure Field where
  name : String
  type : ValueType
  deriving DecidableEq, Repr

/-- the columns of a segment, in order of their numbers -/
structure Schema where
  fields : List Field := []
  deriving DecidableEq, Repr

namespace Schema

def field? (schema : Schema) (number : FieldNumber) : Option Field := schema.fields[number.toNat]?

def name? (schema : Schema) (number : FieldNumber) : Option String := (schema.field? number).map Field.name

def numbered (schema : Schema) : List (FieldNumber × Field) :=
  schema.fields.mapIdx fun i field => (UInt32.ofNat i, field)

/-- the last column of a name -/
def find? (schema : Schema) (name : String) : Option FieldNumber :=
  (schema.numbered.reverse.find? fun entry => entry.2.name == name).map Prod.fst

/-- how errors name a column: by its name, or by its number if the schema does not have it -/
def label (schema : Schema) (number : FieldNumber) : String :=
  (schema.name? number).getD s!"#{number}"

end Schema

end ColumnStore
