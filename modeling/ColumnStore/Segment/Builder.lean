/-
Collecting the values of a segment document by document, and writing them as one segment.

Documents without a value in a column get the value that stands for "no value": zero, or the empty string.
-/
import ColumnStore.Column.Collector
import ColumnStore.Segment.Info
import ColumnStore.Segment.Writer

namespace ColumnStore

open Storage Column

inductive Collector where
  | ints (numbers : NumberCollector)
  | floats (numbers : NumberCollector)
  | bytes (strings : StringCollector)
  | sorted (strings : StringCollector)

/-- one value of a document; a float is given by its bit pattern -/
inductive Value where
  | int (value : Int64)
  | float (bits : UInt64)
  | bytes (value : Bytes)
  | sorted (value : Bytes)
  deriving DecidableEq, Repr

def Value.type : Value → ValueType
  | .int _ => .int
  | .float _ => .float
  | .bytes _ => .bytes
  | .sorted _ => .sortedBytes

namespace Collector

def ofType : ValueType → Collector
  | .int => ints {}
  | .float => floats {}
  | .bytes => bytes {}
  | .sortedBytes => sorted {}

def type : Collector → ValueType
  | ints _ => .int
  | floats _ => .float
  | bytes _ => .bytes
  | sorted _ => .sortedBytes

/-- record a value; one of another type leaves the column as it is -/
def add (document : UInt32) (value : Value) : Collector → Collector
  | ints c =>
    match value with
    | .int v => ints (c.add document v)
    | _ => ints c
  | floats c =>
    match value with
    | .float v => floats (c.add document v.toInt64)
    | _ => floats c
  | bytes c =>
    match value with
    | .bytes v => bytes (c.add document v)
    | _ => bytes c
  | sorted c =>
    match value with
    | .sorted v => sorted (c.add document v)
    | _ => sorted c

def column (documents : UInt32) : Collector → Values
  | ints c => .ints (c.padTo documents).column
  | floats c => .floats (c.padTo documents).column
  | bytes c => .bytes (c.padTo documents).column
  | sorted c => .sorted (c.padTo documents).column

end Collector

/-- a segment under construction; `documents` is one more than the highest document seen -/
structure SegmentBuilder where
  schema : Schema
  collectors : Array Collector
  documents : UInt32 := 0

namespace SegmentBuilder

def ofSchema (schema : Schema) : SegmentBuilder :=
  { schema, collectors := (schema.fields.map fun field => Collector.ofType field.type).toArray }

/-- grow to at least `count` documents -/
def ensure (b : SegmentBuilder) (count : UInt32) : SegmentBuilder := { b with documents := max b.documents count }

/-- documents up to and including one; the highest document of all does not count itself -/
def through (document : UInt32) : UInt32 := if document = 0xffffffff then document else document + 1

/-- count the document of a value in, unless there is no such column or it has another type -/
def enter (b : SegmentBuilder) (field : FieldNumber) (document : UInt32) (type : ValueType) :
    SegmentBuilder × Except Error Unit :=
  match b.collectors[field.toNat]? with
  | none => (b, .error (.fieldNotFound s!"#{field}"))
  | some collector =>
    if collector.type = type then (b.ensure (through document), .ok ())
    else (b, .error (.wrongType collector.type type))

/-- record a value; the builder that comes back is the one to go on with, also after an error -/
def put (b : SegmentBuilder) (field : FieldNumber) (document : UInt32) (value : Value) :
    SegmentBuilder × Except Error Unit :=
  match b.enter field document value.type with
  | (b, .ok ()) => ({ b with collectors := b.collectors.modify field.toNat (·.add document value) }, .ok ())
  | (b, .error e) => (b, .error e)

/-- number, name and values of each column -/
def columns (b : SegmentBuilder) : List (FieldNumber × String × Values) :=
  (b.schema.numbered.zip b.collectors.toList).map fun (entry, collector) =>
    (entry.1, entry.2.name, collector.column b.documents)

/-- add columns in order, up to the first that fails -/
def addAll (d : Directory) (w : SegmentWriter) :
    List (FieldNumber × String × Values) → Directory × SegmentWriter × Except Error Unit
  | [] => (d, w, .ok ())
  | (field, name, values) :: columns =>
    match w.add d field name values with
    | (d, w, .ok _) => addAll d w columns
    | (d, w, .error e) => (d, w, .error e)

/-- write all columns, publish the file pair, then write the info file -/
def flush (d : Directory) (b : SegmentBuilder) (id : SegmentId) (naming : Naming) :
    Directory × Except Error SegmentInfo :=
  match SegmentWriter.create d { id, documents := b.documents } naming with
  | (d, .error e) => (d, .error e)
  | (d, .ok w) =>
    match addAll d w b.columns with
    | (d, w, .error e) => (w.drop d, .error e)
    | (d, w, .ok ()) =>
      match w.close d with
      | (d, .error e) => (d, .error e)
      | (d, .ok ()) =>
        let info : SegmentInfo := ⟨id, b.documents⟩
        match info.store d with
        | (d, .error e) => (d, .error e)
        | (d, .ok ()) => (d, .ok info)

end SegmentBuilder

end ColumnStore
