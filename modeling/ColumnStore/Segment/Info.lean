/-
The info file of a segment: its identity and its number of documents, in twenty bytes.
-/
import ColumnStore.Segment.Basic
import ColumnStore.Storage.Directory

namespace ColumnStore

open Storage

/-- what the info file says -/
structure SegmentInfo where
  id : SegmentId
  documents : UInt32
  deriving DecidableEq, Repr

namespace SegmentInfo

def size : Nat := 20

def toBytes (info : SegmentInfo) : Bytes := info.id.toBytes ++ Bytes.ofUInt32 info.documents

/-- read the start of a content; none if it is too short -/
def ofBytes? (bs : Bytes) : Option SegmentInfo :=
  if bs.length < size then none
  else some ⟨⟨BitVec.ofNat 128 (Bytes.value (bs.take 16))⟩, UInt32.ofNat (Bytes.value ((bs.drop 16).take 4))⟩

def store (info : SegmentInfo) (d : Directory) : Directory × Except Error Unit :=
  match d.write (Segment.infoFile info.id) (Bytes.toByteArray info.toBytes) with
  | (d, .ok ()) => (d, .ok ())
  | (d, .error fault) => (d, .error (.io fault))

/-- read the info file of an identity, which has to repeat that identity -/
def load (d : Directory) (id : SegmentId) : Except Error SegmentInfo :=
  let file := Segment.infoFile id
  match d.read file with
  | .error fault => .error (.io fault)
  | .ok content =>
    match ofBytes? (Bytes.ofArray content) with
    | none => .error (.corruption (.infoTooShort file))
    | some info => if info.id = id then .ok info else .error (.corruption (.infoIdDiffers file))

end SegmentInfo

end ColumnStore
