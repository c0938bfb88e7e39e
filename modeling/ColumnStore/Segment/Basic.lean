/-
The segment that a file pair belongs to, and the names of its files.

A file name holds the identity, the suffix if there is one, and an extension. The info file of a segment has no suffix:
all file pairs of a segment share it.
-/
import ColumnStore.Segment.Naming

namespace ColumnStore

/-- identity and size of a segment; the suffix tells several file pairs of one segment apart -/
structure Segment where
  id : SegmentId
  documents : UInt32
  suffix : String := ""
  deriving DecidableEq, Repr

namespace Segment

/-- name of a file of a segment; an empty suffix or extension leaves no mark -/
def fileName (id : SegmentId) (suffix extension : String) : String :=
  "seg_" ++ id.toHex ++ (if suffix.isEmpty then "" else "_" ++ suffix)
    ++ (if extension.isEmpty then "" else "." ++ extension)

/-- name of a file of this segment -/
def file (s : Segment) (extension : String) : String := fileName s.id s.suffix extension

def infoExtension : String := "info"

def infoFile (id : SegmentId) : String := fileName id "" infoExtension

def dataFile (s : Segment) (naming : Naming) : String := s.file naming.dataExtension

def metadataFile (s : Segment) (naming : Naming) : String := s.file naming.metadataExtension

/-- what the header of the data file says; the current version is 0 -/
def dataHeader (s : Segment) (naming : Naming) : Framing.Identity :=
  { codec := naming.dataCodec, id := s.id, suffix := s.suffix }

def metadataHeader (s : Segment) (naming : Naming) : Framing.Identity :=
  { codec := naming.metadataCodec, id := s.id, suffix := s.suffix }

/-- oldest version that can be read -/
def leastVersion : UInt32 := 0

/-- newest version that can be read, and the one that is written -/
def greatestVersion : UInt32 := 0

end Segment

end ColumnStore
