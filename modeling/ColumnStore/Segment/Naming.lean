/-
How the two files of a segment are named and marked: the codec name in each header, and the extension of each file.
-/
import ColumnStore.Segment.Framing

namespace ColumnStore

/-- codec names and extensions of the file pair -/
structure Naming where
  dataCodec : String := "DocValuesData"
  dataExtension : String := "dvd"
  metadataCodec : String := "DocValuesMetadata"
  metadataExtension : String := "dvm"
  deriving DecidableEq, Repr

namespace Naming

/-- the naming for norms, one number per document -/
def norms : Naming := ⟨"NormsData", "nvd", "NormsMetadata", "nvm"⟩

/-- a codec name has to be present, in ASCII, and short enough for a header -/
def checkCodec (part : NamingPart) (name : String) : Except BadNaming Unit :=
  if name.isEmpty then .error (.empty part)
  else if name.toList.any (128 ≤ ·.toNat) then .error (.notAscii part name)
  else if Framing.maxNameLength < name.utf8ByteSize then .error (.tooLong part name.utf8ByteSize)
  else .ok ()

/-- an extension has to be present, in ASCII letters and digits -/
def checkExtension (part : NamingPart) (text : String) : Except BadNaming Unit :=
  if text.isEmpty || !text.toList.all Char.isAlphanum then .error (.notAlphanumeric part text) else .ok ()

/-- check all parts, and that the extensions differ -/
def check (n : Naming) : Except BadNaming Unit := do
  checkCodec .dataCodec n.dataCodec
  checkCodec .metadataCodec n.metadataCodec
  checkExtension .dataExtension n.dataExtension
  checkExtension .metadataExtension n.metadataExtension
  if n.dataExtension = n.metadataExtension then .error (.sameExtension n.dataExtension)

def validate (n : Naming) : Except Error Unit := n.check.mapError .naming

end Naming

end ColumnStore
