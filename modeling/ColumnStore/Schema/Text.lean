/-
Schemas as JSON texts.

A schema is an object with the member `fields`, a list of objects with the members `name` and `value_type`. Other members
are passed over, whatever they hold; a member that is missing or comes twice is refused. In place of an object, its members
may be given as an array, in order. A type may be given as a string, or as an object that gives it null.
-/
import ColumnStore.Json.Text
import ColumnStore.Json.Tree
import ColumnStore.Schema.Basic

namespace ColumnStore.Schema

open Json

/-! ## Reading -/

/-- the members of an object under their names; every name has to be readable -/
def named? (members : List (Written × Tree)) : Option (List (String × Tree)) :=
  members.mapM fun m => (·, m.2) <$> text? m.1

/-- the one member of a name -/
def single? (name : String) (members : List (String × Tree)) : Option Tree :=
  match members.filter (·.1 = name) with
  | [m] => some m.2
  | _ => none

def typeOf? : Tree → Option ValueType
  | .string s => (text? s).bind ValueType.ofName?
  | .object [(s, .null)] => (text? s).bind ValueType.ofName?
  | _ => none

def nameOf? : Tree → Option String
  | .string s => text? s
  | _ => none

def fieldOf? : Tree → Option Field
  | .object members => do
    let members ← named? members
    let name ← nameOf? (← single? "name" members)
    let type ← typeOf? (← single? "value_type" members)
    return { name, type }
  | .array [name, type] => do return { name := ← nameOf? name, type := ← typeOf? type }
  | _ => none

def fieldsOf? : Tree → Option (List Field)
  | .array items => items.mapM fieldOf?
  | _ => none

def ofTree? : Tree → Option Schema
  | .object members => do
    let members ← named? members
    return ⟨← fieldsOf? (← single? "fields" members)⟩
  | .array [fields] => Schema.mk <$> fieldsOf? fields
  | _ => none

def parse? (text : String) : Option Schema := (Tree.parse? text).bind ofTree?

/-! ## Writing -/

def renderField (field : Field) : String :=
  let name := Json.quoted field.name
  let type := Json.quoted field.type.name
  "\x7b\"name\":" ++ name ++ ",\"value_type\":" ++ type ++ "\x7d"

/-- write a schema, without spaces -/
def render (schema : Schema) : String :=
  "\x7b\"fields\":[" ++ ",".intercalate (schema.fields.map renderField) ++ "]\x7d"

end ColumnStore.Schema
