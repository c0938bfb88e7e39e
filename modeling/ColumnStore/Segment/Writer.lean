/-
Writing the file pair of a segment.

A writer holds two outputs. Columns are planned one at a time and carried out write by write; after a failure the writer
only remembers that it failed. Nothing is published before `close`: it writes the end mark and the footers, publishes the
data file and then the metadata file, so that a metadata file is never seen without its data file. A writer that failed,
and a writer that is dropped, throws both files away.
-/
import ColumnStore.Column.Plan
import ColumnStore.Segment.Basic

namespace ColumnStore

open Storage Column

/-- an open file pair -/
structure SegmentWriter where
  metadata : Output
  data : Output
  documents : UInt32
  failed : Bool := false

namespace SegmentWriter

/-- what stands in place of a column number after the last column -/
def endMark : UInt32 := 0xffffffff

/-- throw a file away, whatever comes of it -/
def discard (d : Directory) (o : Output) : Directory := (o.abort d).1

/-- throw both files away -/
def drop (d : Directory) (w : SegmentWriter) : Directory := discard (discard d w.metadata) w.data

/-! ## Opening -/

/-- open an output and write its header; an output whose header cannot be written is thrown away -/
def openFile (d : Directory) (file : String) (header : Framing.Identity) : Directory × Except Error Output :=
  match Output.create d file with
  | (d, .error fault) => (d, .error (.io fault))
  | (d, .ok output) =>
    match output.writeHeader d header with
    | (d, output, .ok ()) => (d, .ok output)
    | (d, output, .error e) => (discard d output, .error e)

/-- open the data file, then the metadata file -/
def create (d : Directory) (s : Segment) (naming : Naming) : Directory × Except Error SegmentWriter :=
  match naming.validate with
  | .error e => (d, .error e)
  | .ok () =>
    match openFile d (s.dataFile naming) (s.dataHeader naming) with
    | (d, .error e) => (d, .error e)
    | (d, .ok data) =>
      match openFile d (s.metadataFile naming) (s.metadataHeader naming) with
      | (d, .error e) => (discard d data, .error e)
      | (d, .ok metadata) => (d, .ok { metadata, data, documents := s.documents })

/-! ## Columns -/

/-- carry writes out, up to the first that fails -/
def carryOut (d : Directory) (metadata data : Output) :
    List Write → Directory × Output × Output × Except IoError Unit
  | [] => (d, metadata, data, .ok ())
  | ⟨.metadata, bytes⟩ :: writes =>
    match metadata.writeAll d bytes with
    | (d, metadata, .ok ()) => carryOut d metadata data writes
    | (d, metadata, .error fault) => (d, metadata, data, .error fault)
  | ⟨.data, bytes⟩ :: writes =>
    match data.writeAll d bytes with
    | (d, data, .ok ()) => carryOut d metadata data writes
    | (d, data, .error fault) => (d, metadata, data, .error fault)

def follow (d : Directory) (w : SegmentWriter) (plan : Plan) : Directory × SegmentWriter × Except Error Layout :=
  match w with
  | ⟨metadata, data, documents, failed⟩ =>
    match carryOut d metadata data plan.writes with
    | (d, metadata, data, .error fault) => (d, ⟨metadata, data, documents, true⟩, .error (.io fault))
    | (d, metadata, data, .ok ()) =>
      match plan.outcome with
      | .ok layout => (d, ⟨metadata, data, documents, failed⟩, .ok layout)
      | .error e => (d, ⟨metadata, data, documents, true⟩, .error e)

/-- add a column, and answer the layout chosen for it -/
def add (d : Directory) (w : SegmentWriter) (field : FieldNumber) (name : String) (values : Values) :
    Directory × SegmentWriter × Except Error Layout :=
  w.follow d (values.plan field name w.documents w.data.position)

/-- add the live entries of several segments as one column of integers -/
def addMerged (d : Directory) (w : SegmentWriter) (field : FieldNumber) (name : String) (parts : List MergePart) :
    Directory × SegmentWriter × Except Error Layout :=
  w.add d field name (.ints (merge parts))

/-! ## Closing -/

def complete (d : Directory) (w : SegmentWriter) : Directory × SegmentWriter × Except IoError Unit :=
  match w with
  | ⟨metadata, data, documents, failed⟩ =>
    match metadata.writePieces d (Varint.pieces endMark.toNat) with
    | (d, metadata, .error fault) => (d, ⟨metadata, data, documents, failed⟩, .error fault)
    | (d, metadata, .ok ()) =>
      match metadata.writeFooter d with
      | (d, metadata, .error fault) => (d, ⟨metadata, data, documents, failed⟩, .error fault)
      | (d, metadata, .ok ()) =>
        match data.writeFooter d with
        | (d, data, outcome) => (d, ⟨metadata, data, documents, failed⟩, outcome)

/-- publish the data file, then the metadata file -/
def publish (d : Directory) (w : SegmentWriter) : Directory × Except Error Unit :=
  match w.data.finish d with
  | (d, .error fault) => (discard d w.metadata, .error (.io fault))
  | (d, .ok ()) =>
    match w.metadata.finish d with
    | (d, .error fault) => (d, .error (.io fault))
    | (d, .ok ()) => (d, .ok ())

/-- complete and publish both files, or throw both away -/
def close (d : Directory) (w : SegmentWriter) : Directory × Except Error Unit :=
  if w.failed then (w.drop d, .error (.discarded w.metadata.name w.data.name))
  else
    match w.complete d with
    | (d, w, .ok ()) => w.publish d
    | (d, w, .error fault) => (w.drop d, .error (.io fault))

end SegmentWriter

end ColumnStore
