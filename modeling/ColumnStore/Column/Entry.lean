/-
What the metadata file says about a column: its layout, how many values are stored, and where.

An entry of the layout `indirect` holds a nested entry for its present values, one of the layout `sorted` for its ordinals.
`Entry.read` parses an entry and checks what can be checked without the segment; `checkCount` holds it against the
number of documents and `checkOffsets` against the bounds of the data file.
-/
import ColumnStore.Storage.Input

namespace ColumnStore.Column

open Storage

/-- where and how a column of numbers is stored -/
inductive NumberEntry where
  | const (value : Int64)
  | uncompressed (count : UInt32) (offset : UInt64)
  | table (count : UInt32) (offset : UInt64)
  | delta (count : UInt32) (offset : UInt64)
  | indirect (count : UInt32) (offset : UInt64) (values : NumberEntry)
  deriving DecidableEq, Repr, Inhabited

/-- where and how a column is stored -/
inductive Entry where
  | numbers (entry : NumberEntry)
  | bytes (count : UInt32) (offset : UInt64)
  | sorted (count : UInt32) (offset : UInt64) (ordinals : NumberEntry)
  deriving DecidableEq, Repr

/-- deepest nesting of a parsed entry -/
def maxNesting : Nat := 4

/-- an offset has to lie between the header and the footer of the data file -/
def checkOffset (start stop : Nat) (offset : UInt64) : Except Error Unit :=
  if offset.toNat < start ∨ stop < offset.toNat then
    .error (.corruption (.offsetOutside offset.toNat start stop))
  else .ok ()

namespace NumberEntry

def layout : NumberEntry → Layout
  | const _ => .const
  | uncompressed .. => .uncompressed
  | table .. => .table
  | delta .. => .delta
  | indirect .. => .indirect

/-- stored values, where the layout counts them -/
def count? : NumberEntry → Option UInt32
  | const _ => none
  | uncompressed count _ | table count _ | delta count _ | indirect count _ _ => some count

/-- a counting entry has to hold exactly `expected` values -/
def checkCount (file : String) (field : FieldNumber) (expected : UInt32) (entry : NumberEntry) : Except Error Unit :=
  match entry.count? with
  | some count =>
    if count = expected then .ok () else .error (.corruption (.storedCount file field count expected))
  | none => .ok ()

/-- every offset lies within bounds, nested ones first -/
def checkOffsets (start stop : Nat) : NumberEntry → Except Error Unit
  | const _ => .ok ()
  | uncompressed _ offset | table _ offset | delta _ offset => checkOffset start stop offset
  | indirect _ offset values =>
    match values.checkOffsets start stop with
    | .ok () => checkOffset start stop offset
    | .error e => .error e

end NumberEntry

namespace Entry

def layout : Entry → Layout
  | numbers entry => entry.layout
  | bytes .. => .bytes
  | sorted .. => .sorted

def nestedLayout? : Entry → Option Layout
  | numbers (.indirect _ _ values) => some values.layout
  | sorted _ _ ordinals => some ordinals.layout
  | _ => none

/-- stored values, where the layout counts them; entries of the dictionary of a sorted column -/
def count? : Entry → Option UInt32
  | numbers entry => entry.count?
  | bytes count _ | sorted count _ _ => some count

/-! ## Parsing -/

/-- an offset, which is stored as a signed number and must not be negative -/
def readOffset : Reading UInt64 := do
  let offset ← Reading.int64
  if offset < 0 then Reading.corrupt fun i => .negativeOffset i.name offset
  return offset.toUInt64

/-- the nested entry after its label, which has to repeat the number of the column -/
def readNested (field : FieldNumber) (readEntry : Reading Entry) : Reading NumberEntry := do
  let label ← Reading.varint32
  if label ≠ field then Reading.corrupt fun i => .nestedLabel i.name field label
  match ← readEntry with
  | .numbers entry => return entry
  | other => Reading.corrupt fun i => .nestedLayout i.name field other.layout

/-- a check of an entry within its file -/
def checking (check : (file : String) → Except Error Unit) : Reading Unit := fun i =>
  match check i.name with
  | .ok () => .ok () i
  | .error e => .error e i

/-- the entry after its column number, with at most `levels` levels of entries -/
def readLevels (field : FieldNumber) : (levels : Nat) → Reading Entry
  | 0 => Reading.corrupt fun i => .nestedTooDeep i.name field
  | levels + 1 => do
    let count ← Reading.varint32
    let tag ← Reading.byte
    match Layout.ofTag? tag with
    | none => Reading.corrupt fun i => .unknownTag i.name tag field
    | some .const => return .numbers (.const (← Reading.int64))
    | some .uncompressed => return .numbers (.uncompressed count (← readOffset))
    | some .table => return .numbers (.table count (← readOffset))
    | some .delta => return .numbers (.delta count (← readOffset))
    | some .indirect =>
      let offset ← readOffset
      let values ← readNested field (readLevels field levels)
      checking fun file => values.checkCount file field count
      return .numbers (.indirect count offset values)
    | some .bytes => return .bytes count (← readOffset)
    | some .sorted =>
      let offset ← readOffset
      let ordinals ← readNested field (readLevels field levels)
      return .sorted count offset ordinals

/-- the entry after its column number, which itself stands at a level of nesting -/
def read (field : FieldNumber) (level : Nat) : Reading Entry := readLevels field (maxNesting + 1 - level)

/-! ## Checks against the segment -/

/-- a top-level entry has to cover the documents of the segment; an indirect one counts only those with a value -/
def checkCount (file : String) (field : FieldNumber) (documents : UInt32) : Entry → Except Error Unit
  | numbers (.indirect count _ _) =>
    if count ≤ documents then .ok () else .error (.corruption (.tooManyValues file field count documents))
  | numbers entry => entry.checkCount file field documents
  | bytes count _ =>
    if count = documents then .ok () else .error (.corruption (.storedCount file field count documents))
  | sorted _ _ ordinals => ordinals.checkCount file field documents

def checkOffsets (start stop : Nat) : Entry → Except Error Unit
  | numbers entry => entry.checkOffsets start stop
  | bytes _ offset => checkOffset start stop offset
  | sorted _ offset ordinals =>
    match checkOffset start stop offset with
    | .ok () => ordinals.checkOffsets start stop
    | .error e => .error e

end Entry

end ColumnStore.Column
