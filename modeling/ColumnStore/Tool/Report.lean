/-
What the tool prints about a segment.
-/
import ColumnStore.Column.Cursor
import ColumnStore.Decimal.Text
import ColumnStore.Segment.Reader
import ColumnStore.Tool.Failure

namespace ColumnStore.Tool

open Column

def padRight (width : Nat) (text : String) : String :=
  text ++ String.ofList (List.replicate (width - text.length) ' ')

def padLeft (width : Nat) (text : String) : String :=
  String.ofList (List.replicate (width - text.length) ' ') ++ text

/-- lines, each with its line feed -/
def unlines (lines : List String) : String := String.join (lines.map (· ++ "\n"))

/-- the layout of a column, and that of the column nested in it -/
def layoutText (entry : Entry) : String :=
  match entry.nestedLayout? with
  | some nested => s!"{entry.layout.name}({nested.name})"
  | none => entry.layout.name

/-- the name of a column; every stored column has one -/
def columnName (r : SegmentReader) (field : FieldNumber) : String := (r.schema.name? field).getD "?"

/-! ## Layouts -/

/-- the identity of a segment, and the layout of each column -/
def encodedReport (id : SegmentId) (r : SegmentReader) : String :=
  unlines (id.toHex :: r.entries.map fun (field, entry) => columnName r field ++ "\t" ++ layoutText entry)

def tableRow (name layout stored footprint : String) : String :=
  padRight 24 name ++ " " ++ padRight 24 layout ++ " " ++ padLeft 12 stored ++ " " ++ padLeft 12 footprint

/-- the row of a column, and the memory that it takes when loaded -/
def columnRow (r : SegmentReader) (field : FieldNumber) (entry : Entry) : Except Failure (String × Nat) :=
  let name := columnName r field
  match r.load field with
  | .error e => .error (.notLoaded name e)
  | .ok source =>
    let stored := (entry.count?.map toString).getD "-"
    .ok (tableRow name (layoutText entry) stored (toString source.footprint), source.footprint)

/-- print the rows of columns after what is printed, up to the first that cannot be loaded, and add up their memory -/
def printRows (r : SegmentReader) (printed : String) (total : Nat) :
    List (FieldNumber × Entry) → String × Except Failure Nat
  | [] => (printed, .ok total)
  | (field, entry) :: entries =>
    match columnRow r field entry with
    | .error f => (printed, .error f)
    | .ok (row, footprint) => printRows r (printed ++ row ++ "\n") (total + footprint) entries

/-- what stands above the rows of columns -/
def tableHead (segment : String) (r : SegmentReader) : String :=
  unlines [s!"Segment: {segment}", s!"Documents: {r.documents}", "", tableRow "field" "strategy" "stored" "ram bytes"]

def printTable (segment : String) (r : SegmentReader) : String × Except Failure Unit :=
  match printRows r (tableHead segment r) 0 r.entries with
  | (printed, .error f) => (printed, .error f)
  | (printed, .ok total) => (printed ++ unlines ["", s!"Total source memory: {total} bytes"], .ok ())

/-! ## Values -/

def valueLine (document : UInt32) (text : String) : String := s!"{document}\t{text}\n"

/-- print the documents ahead of a cursor after those printed, up to the first error -/
def printAhead {α : Type} (text : α → String) (c : Cursor α) (printed : String) : String × Except Error Unit :=
  match _step : c.next with
  | (none, _) => (printed, .ok ())
  | (some (.error e), _) => (printed, .error e)
  | (some (.ok (document, value)), c) => printAhead text c (printed ++ valueLine document (text value))
termination_by c.remaining
decreasing_by exact Cursor.remaining_lt_of_next _step

def printAll {α : Type} (documents : UInt32) (get : UInt32 → Except Error α) (text : α → String) :
    String × Except Error Unit :=
  match Cursor.create documents get with
  | .ok c => printAhead text c ""
  | .error e => ("", .error e)

def printSource (type : ValueType) (s : Source) : String × Except Error Unit :=
  match type with
  | .int => printAll s.documents s.int (fun v : Int64 => toString v)
  | .float => printAll s.documents s.float Decimal.plainText
  | .bytes | .sortedBytes => printAll s.documents s.bytes Text.Utf8.decodeLossy

end ColumnStore.Tool
