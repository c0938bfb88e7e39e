/-
How one column lies on disk.

Five layouts hold numbers, two hold byte strings. Each has a tag in the metadata file and a name in reports;
`ofTag?_tag` says that a tag determines its layout.
-/
namespace ColumnStore

inductive Layout where
  /-- one value shared by every document, no payload -/
  | const
  /-- a table of at most 256 values and an ordinal per document -/
  | table
  /-- one signed byte per document -/
  | uncompressed
  /-- blocks of offsets from their least value -/
  | delta
  /-- the documents that carry a value, and the column of just those values -/
  | indirect
  /-- the concatenated byte strings and their addresses -/
  | bytes
  /-- a sorted dictionary of byte strings, and the column of ordinals -/
  | sorted
  deriving DecidableEq, Repr

namespace Layout

def tag : Layout → UInt8
  | delta => 0
  | table => 1
  | const => 2
  | uncompressed => 3
  | indirect => 4
  | bytes => 5
  | sorted => 6

def ofTag? (tag : UInt8) : Option Layout :=
  match tag.toNat with
  | 0 => some delta
  | 1 => some table
  | 2 => some const
  | 3 => some uncompressed
  | 4 => some indirect
  | 5 => some bytes
  | 6 => some sorted
  | _ => none

def name : Layout → String
  | const => "const"
  | table => "table"
  | uncompressed => "uncompressed"
  | delta => "delta"
  | indirect => "indirect"
  | bytes => "bytes"
  | sorted => "sorted"

def isNumeric : Layout → Bool
  | bytes | sorted => false
  | _ => true

@[simp] theorem ofTag?_tag (layout : Layout) : ofTag? layout.tag = some layout := by
  cases layout <;> rfl

end Layout

end ColumnStore
