/-
Segment identity: 128 bits, written as 32 lower-case hexadecimal digits.
-/
import ColumnStore.Text.Hex

namespace ColumnStore

/-- the identity of a segment, stamped into each of its files -/
structure SegmentId where
  bits : BitVec 128
  deriving DecidableEq, Repr

namespace SegmentId

/-- all 32 digits -/
def toHex (id : SegmentId) : String := Text.Hex.padded 32 id.bits.toNat

/-- digits of either case, with an optional plus sign, of a value below `2 ^ 128` -/
def ofHex? (text : String) : Option SegmentId :=
  (Text.Hex.parse? (1 <<< 128) text).map fun n => ⟨BitVec.ofNat 128 n⟩

def toBytes (id : SegmentId) : Bytes := Bytes.ofBitVec128 id.bits

end SegmentId

end ColumnStore
