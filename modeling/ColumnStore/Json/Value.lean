/-
JSON values: trees whose strings and numbers have a meaning.

A text is read as a value if it is not too deep, every string is text and every number is in range. The members of an object
stand in order of their names, and of several members of one name the last counts.
-/
import ColumnStore.Json.Number
import ColumnStore.Json.Text
import ColumnStore.Json.Tree

namespace ColumnStore.Json

inductive Value where
  | null
  | bool (value : Bool)
  | number (n : Number)
  | string (text : String)
  | array (items : List Value)
  | object (members : List (String × Value))

/-- members in order of their names -/
abbrev Members := List (String × Value)

/-- add a member, in place of an earlier one of its name -/
def insertMember (name : String) (value : Value) : Members → Members
  | [] => [(name, value)]
  | m :: members =>
    if name < m.1 then (name, value) :: m :: members
    else if name = m.1 then (name, value) :: members
    else m :: insertMember name value members

/-- deepest nesting of a text that is read as a value -/
def maxDepth : Nat := 127

mutual

def Value.ofTree? : Tree → Option Value
  | .null => some .null
  | .bool value => some (.bool value)
  | .number n => Value.number <$> n.number?
  | .string s => Value.string <$> text? s
  | .array items => Value.array <$> valuesOf? items
  | .object members => Value.object <$> membersOf? [] members

def valuesOf? : List Tree → Option (List Value)
  | [] => some []
  | tree :: trees => do return (← Value.ofTree? tree) :: (← valuesOf? trees)

/-- add members to those read so far -/
def membersOf? (read : Members) : List (Written × Tree) → Option Members
  | [] => some read
  | (name, tree) :: rest => do membersOf? (insertMember (← text? name) (← Value.ofTree? tree) read) rest

end

def Value.parse? (text : String) : Option Value := do
  let tokens ← tokens? text
  if maxDepth < depth tokens then none
  else Value.ofTree? (← Tree.ofTokens? tokens)

/-! ## Writing -/

mutual

/-- write a value, without spaces -/
def Value.render : Value → String
  | .null => "null"
  | .bool value => if value then "true" else "false"
  | .number n => n.render
  | .string text => quoted text
  | .array items => "[" ++ ",".intercalate (renderItems items) ++ "]"
  | .object members => "\x7b" ++ ",".intercalate (renderMembers members) ++ "\x7d"

def renderItems : List Value → List String
  | [] => []
  | value :: values => value.render :: renderItems values

def renderMembers : List (String × Value) → List String
  | [] => []
  | (name, value) :: members => (quoted name ++ ":" ++ value.render) :: renderMembers members

end

end ColumnStore.Json
