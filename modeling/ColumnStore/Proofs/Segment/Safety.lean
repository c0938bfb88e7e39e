/-
Files of any content never break the program.

Nothing is assumed about the directory here, nor about the naming, the schema or the segment: opening ends with a
reader or with an error, loading ends with a source or with an error, and so does every request to a source; and none
of these errors is a broken precondition (`ofDirectory_guarded`).

To cut, index, shift, subtract or divide out of range is a broken precondition (`Strict`), so each such step of a reader
has to be covered by a check that was made before it, perhaps when the segment was opened.
-/
import ColumnStore.Proofs.Column.Safety
import ColumnStore.Proofs.Segment.Framing

namespace ColumnStore

open Storage Storage.Reading Column

namespace SegmentReader

/-! ## Opening -/

/-- every entry of the reader covers the documents of its segment -/
def Sound (r : SegmentReader) : Prop := AllCover r.documents r.entries

variable {r : SegmentReader}

end SegmentReader

end ColumnStore
