/-
Reading the file pair of a segment.

Opening checks both files as wholes, parses all entries and holds them against the segment, the data file and the schema;
the payload of a column is decoded when the column is loaded. The entries are kept in rising order of their column numbers.
-/
import ColumnStore.Column.Handle
import ColumnStore.Segment.Basic
import ColumnStore.Storage.Directory
import ColumnStore.Segment.Writer

namespace ColumnStore

open Storage Column

/-- an open file pair -/
structure SegmentReader where
  data : Input
  entries : List (FieldNumber × Entry)
  schema : Schema
  documents : UInt32

namespace SegmentReader

def readFile (d : Directory) (file : String) : Except Error Input :=
  match d.read file with
  | .ok data => .ok { name := file, data }
  | .error fault => .error (.io fault)

/-- check the footer and the header of a file; answers the end of its body, its version, and the input after the header -/
def openFile (d : Directory) (file : String) (header : Framing.Identity) : Except Error (Nat × UInt32 × Input) := do
  let input ← readFile d file
  let stop ← Framing.checkFooter input
  match Framing.checkHeader header.codec Segment.leastVersion Segment.greatestVersion header.id header.suffix input with
  | .ok version input => .ok (stop, version, input)
  | .error e _ => .error e

/-- put an entry in its place; none if there is one for its number -/
def insert? (number : FieldNumber) (entry : Entry) : List (FieldNumber × Entry) → Option (List (FieldNumber × Entry))
  | [] => some [(number, entry)]
  | e :: entries =>
    if number < e.1 then some ((number, entry) :: e :: entries)
    else if number = e.1 then none
    else (e :: ·) <$> insert? number entry entries

/-- read entries up to the end mark, at most as many as `fuel` -/
def readEntriesWithin (documents : UInt32) : (fuel : Nat) → List (FieldNumber × Entry) →
    Reading (List (FieldNumber × Entry))
  | 0, entries => return entries
  | fuel + 1, entries => do
    let number ← Reading.varint32
    if number = SegmentWriter.endMark then return entries
    let entry ← Entry.read number 0
    Entry.checking fun file => entry.checkCount file number documents
    match insert? number entry entries with
    | some entries => readEntriesWithin documents fuel entries
    | none => Reading.corrupt fun i => .fieldTwice i.name number

/-- read entries up to the end mark; each takes at least one byte, so the bytes ahead bound their number -/
def readEntries (documents : UInt32) : Reading (List (FieldNumber × Entry)) := do
  readEntriesWithin documents ((← get).remaining + 1) []

/-- whether a column of a type can be stored as an entry says -/
def fits (type : ValueType) : Entry → Bool
  | .numbers _ => type = .int || type = .float
  | .bytes .. => type = .bytes
  | .sorted .. => type = .sortedBytes

/-- the schema has to know the column of an entry, with a type that fits -/
def checkSchema (schema : Schema) (number : FieldNumber) (entry : Entry) : Except Error Unit :=
  match schema.field? number with
  | none => .error (.fieldNotFound s!"#{number}")
  | some field => if fits field.type entry then .ok () else .error (.wrongLayout field.type entry.layout)

/-- check each entry against the bounds of the data file, then against the schema -/
def checkEntries (schema : Schema) (start stop : Nat) : List (FieldNumber × Entry) → Except Error Unit
  | [] => .ok ()
  | (number, entry) :: entries => do
    entry.checkOffsets start stop
    checkSchema schema number entry
    checkEntries schema start stop entries

/-- open the file pair of a segment: the metadata file, then the data file -/
def ofDirectory (d : Directory) (schema : Schema) (s : Segment) (naming : Naming) : Except Error SegmentReader := do
  naming.validate
  let (metadataStop, version, metadata) ← openFile d (s.metadataFile naming) (s.metadataHeader naming)
  match readEntries s.documents metadata with
  | .error e _ => .error e
  | .ok entries metadata =>
    if metadata.position ≠ metadataStop then
      .error (.corruption (.bytesAfterEntries metadata.name (metadataStop - metadata.position)))
    else
      let (stop, dataVersion, data) ← openFile d (s.dataFile naming) (s.dataHeader naming)
      if dataVersion ≠ version then
        .error (.corruption (.versionsDiffer metadata.name version data.name dataVersion))
      else
        checkEntries schema data.position stop entries
        let body ← data.slice 0 stop
        .ok { data := { name := data.name, data := body }, entries, schema, documents := s.documents }

/-! ## Entries -/

def entry? (r : SegmentReader) (field : FieldNumber) : Option Entry :=
  (r.entries.find? fun e => e.1 = field).map Prod.snd

/-- numbers of the stored columns, rising -/
def fields (r : SegmentReader) : List FieldNumber := r.entries.map Prod.fst

/-- the entry of a column that has to be there -/
def entry (r : SegmentReader) (field : FieldNumber) : Except Error Entry :=
  match r.entry? field with
  | some entry => .ok entry
  | none => .error (.fieldNotFound (r.schema.label field))

/-- how the words of a column of numbers are meant -/
def kind (r : SegmentReader) (field : FieldNumber) : Except Error NumberKind :=
  match r.schema.field? field with
  | some ⟨_, .float⟩ => .ok .float
  | some _ => .ok .int
  | none => .error (.fieldNotFound s!"#{field}")

/-! ## Loading -/

def loadSorted (r : SegmentReader) (field : FieldNumber) : Except Error SortedSource := do
  match ← r.entry field with
  | .sorted size offset ordinals => (SortedSource.read offset size ordinals r.documents).eval r.data
  | other => .error (.wrongLayout .sortedBytes other.layout)

def load (r : SegmentReader) (field : FieldNumber) : Except Error Source := do
  match ← r.entry field with
  | .numbers entry =>
    let kind ← r.kind field
    let reader ← (NumberReader.read entry).eval r.data
    return .numbers ⟨reader, kind, r.documents⟩
  | .bytes count offset => .strings <$> (StringTable.read offset count).eval r.data
  | .sorted .. => .sorted <$> r.loadSorted field

/-- a handle that loads a column from this reader -/
def handle (r : SegmentReader) (field : FieldNumber) : Except Error Handle := do
  let entry ← r.entry field
  let sortedLoader? :=
    match entry with
    | .sorted .. => some fun _ => r.loadSorted field
    | _ => none
  return { field, loader := fun _ => r.load field, sortedLoader? }

end SegmentReader

end ColumnStore
