/-
How a column is written.

A plan lists, in order, the bytes that one column adds to the metadata file and to the data file, and says which layout
was chosen or why the column is refused. It depends on the values and on the offset at which the data file stands, and on
nothing else; what happens when a file refuses a write is left to whoever carries the plan out. A column of numbers that
is stored by its present values only is planned again for just those: they are fewer (`length_present_lt`), so planning
ends.
-/
import ColumnStore.Column.Dictionary
import ColumnStore.Packing.FixedWidth
import ColumnStore.Packing.Monotone

namespace ColumnStore.Column

open Packing Storage

/-- version that packed payloads state -/
def packedVersion : UInt32 := 2

/-- format that a table states for its ordinals: fixed width -/
def packedFormat : UInt32 := 1

/-- values in a block of a packed payload -/
def blockSize : Nat := 16384

/-- the two files that hold columns -/
inductive Target where
  | metadata
  | data
  deriving DecidableEq, Repr

structure Write where
  target : Target
  bytes : Bytes
  deriving DecidableEq, Repr

/-- the writes of a column, and what comes of them -/
structure Plan where
  writes : List Write
  outcome : Except Error Layout

namespace Plan

/-- write nothing, and give up -/
def refuse (e : Error) : Plan := ⟨[], .error e⟩

/-- write nothing more -/
def settle (layout : Layout) : Plan := ⟨[], .ok layout⟩

/-- write pieces to a file, and go on -/
def after (target : Target) (pieces : List Bytes) (rest : Plan) : Plan :=
  ⟨pieces.map (Write.mk target) ++ rest.writes, rest.outcome⟩

/-- write a payload to the data file, and go on -/
def afterPayload (payload : Except Error (List Bytes)) (rest : (length : Nat) → Plan) : Plan :=
  match payload with
  | .error e => refuse e
  | .ok pieces => after .data pieces (rest pieces.flatten.length)

/-- the same writes for a column of which this one is a part -/
def within (layout : Layout) (plan : Plan) : Plan :=
  match plan.outcome with
  | .error e => ⟨plan.writes, .error e⟩
  | .ok _ => ⟨plan.writes, .ok layout⟩

end Plan

/-! ## Payloads -/

namespace Payload

/-- what a payload in blocks starts with -/
def blockHead : List Bytes := Varint.pieces packedVersion.toNat ++ Varint.pieces blockSize

/-- one byte per value -/
def uncompressed (values : List Int64) : List Bytes := values.map fun v => [v.toUInt64.toUInt8]

/-- the values of a table, as many as its ordinals can name; the rest are zeros -/
def tableValues (distinct : Distinct) (width : Nat) : List Int64 :=
  distinct.decodeTable ++ List.replicate ((1 <<< width) - distinct.size) 0

/-- a table of values, and the ordinal of each value in it -/
def table (distinct : Distinct) (width : Nat) (values : List Int64) : Except Error (List Bytes) := do
  let ordinals ← values.mapM distinct.ordinal
  let packed ← FixedWidth.pieces width (ordinals.map UInt64.ofNat)
  return Varint.pieces packedVersion.toNat ++ Varint.pieces (1 <<< width)
    ++ (tableValues distinct width).map Bytes.ofInt64
    ++ Varint.pieces packedFormat.toNat ++ Varint.pieces width ++ packed

def delta (values : List Int64) : Except Error (List Bytes) := do
  return blockHead ++ (← Delta.pieces blockSize values)

/-- a rising sequence in blocks -/
def rising (values : List Int64) : Except Error (List Bytes) := do
  return blockHead ++ (← Monotone.pieces blockSize values)

/-- where each string starts, and where the last one ends -/
def addresses (start : Int64) : List Bytes → List Int64
  | [] => [start]
  | s :: rest => start :: addresses (start + Int64.ofNat s.length) rest

/-- byte strings end to end, and their addresses -/
def strings (entries : List Bytes) : Except Error (List Bytes) := do
  let addresses ← rising (addresses 0 entries)
  return Varint.pieces entries.flatten.length ++ entries ++ addresses

end Payload

/-! ## Columns -/

/-- a column has to hold one value per document of the segment -/
def checkLength (name : String) (count : Nat) (documents : Option UInt32) : Except Error Unit :=
  match documents with
  | some documents =>
    if count = documents.toNat then .ok () else .error (.invalidArgument (.valueCount name count documents))
  | none => .ok ()

/-- the entry of a column after its number: stored values, layout, offset -/
def entryPieces (count : Nat) (layout : Layout) (offset : Nat) : List Bytes :=
  Varint.pieces count ++ [[layout.tag], Bytes.ofUInt64 (UInt64.ofNat offset)]

/-- the entry of a column that has one value only -/
def constPieces (value : Int64) : List Bytes := Varint.pieces 0 ++ [[Layout.const.tag], Bytes.ofInt64 value]

/-- plan a column of numbers whose payload starts at `offset` -/
def planNumbers (field : FieldNumber) (name : String) (documents : Option UInt32) (offset : Nat)
    (values : Numbers) : Plan :=
  .after .metadata (Varint.pieces field.toNat) <|
    match _scan : Stats.collect name values with
    | .error e => .refuse e
    | .ok stats =>
      match checkLength name stats.count documents with
      | .error e => .refuse e
      | .ok () =>
        let entry (count : Nat) (rest : Plan) : Plan :=
          .after .metadata (entryPieces count stats.layout offset) rest
        let plain (payload : Except Error (List Bytes)) : Plan :=
          entry stats.count (.afterPayload payload fun _ => .settle stats.layout)
        match _choice : stats.layout with
        | .const => .after .metadata (constPieces stats.least) (.settle .const)
        | .uncompressed => plain (.ok (Payload.uncompressed (values.filterMap id)))
        | .table =>
          plain (Payload.table (stats.distinct.getD {}) (stats.tableWidth?.getD 8) (values.filterMap id))
        | .indirect =>
          entry (stats.count - stats.missing) <|
            .afterPayload (Payload.rising ((Column.documents values).map Int64.ofNat)) fun length =>
              (planNumbers field name none (offset + length) (present values)).within .indirect
        | _ => plain (Payload.delta (values.filterMap id))
termination_by values.length
decreasing_by
  exact length_present_lt (by have := Stats.missing_of_collect _scan; have := Stats.missing_pos_of_layout _choice; omega)

def firstNull? (values : Strings) : Option Nat := values.findIdx? Option.isNone

/-- a column of byte strings has to be free of nulls, and to hold one string per document -/
def checkStrings (name : String) (documents : UInt32) (values : Strings) : Except Error Unit :=
  match firstNull? values with
  | some document => .error (.nullValue name document)
  | none => checkLength name values.length (some documents)

def planBytes (field : FieldNumber) (name : String) (documents : UInt32) (offset : Nat) (values : Strings) : Plan :=
  .after .metadata (Varint.pieces field.toNat) <|
    match checkStrings name documents values with
    | .error e => .refuse e
    | .ok () =>
      .after .metadata (entryPieces values.length .bytes offset) <|
        .afterPayload (Payload.strings (values.filterMap id)) fun _ => .settle .bytes

/-- plan a column of byte strings that goes through a dictionary -/
def planSorted (field : FieldNumber) (name : String) (documents : UInt32) (offset : Nat) (values : Strings) : Plan :=
  .after .metadata (Varint.pieces field.toNat) <|
    match checkStrings name documents values with
    | .error e => .refuse e
    | .ok () =>
      let dictionary := Dictionary.ofStrings values
      .after .metadata (entryPieces (UInt32.ofNat dictionary.size).toNat .sorted offset) <|
        .afterPayload (Payload.strings dictionary.entries.toList) fun length =>
          (planNumbers field name (some documents) (offset + length) (dictionary.ordinals values)).within .sorted

/-- the values of a column, by their type; floats are given by their bit patterns -/
inductive Values where
  | ints (values : Numbers)
  | floats (values : Numbers)
  | bytes (values : Strings)
  | sorted (values : Strings)

def Values.plan (values : Values) (field : FieldNumber) (name : String) (documents : UInt32) (offset : Nat) : Plan :=
  match values with
  | .ints values | .floats values => planNumbers field name (some documents) offset values
  | .bytes values => planBytes field name documents offset values
  | .sorted values => planSorted field name documents offset values

end ColumnStore.Column
