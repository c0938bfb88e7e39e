/-
The wording of errors: one text for each cause.
-/
import ColumnStore.Error.Basic
import ColumnStore.Text.Quoted

namespace ColumnStore

open Text (quoted)

/-- a number in hexadecimal, marked as such -/
private def hex (least n : Nat) : String := "0x" ++ Text.Hex.padded least n

namespace Corruption

def message : Corruption → String
  | readPastEnd file position length => s!"{file}: read past EOF at {position} (len {length})"
  | sliceOutside file start stop length => s!"{file}: slice {start}..{stop} out of bounds (len {length})"
  | varintTooLong file position => s!"{file}: varint too long at {position}"
  | varintTooWide file value position => s!"{file}: vint {value} overflows 32 bits at {position}"
  | invalidUtf8 file fault => s!"{file}: invalid utf8: {fault.message}"
  | headerMagic file found =>
    s!"{file}: bad header magic {hex 8 found.toNat} (expected {hex 8 0x3fd76c17})"
  | codecDiffers file expected found =>
    s!"{file}: codec mismatch: expected {quoted expected}, got {quoted found}"
  | versionOutside file version least most =>
    s!"{file}: format version {version} outside supported range {least}..={most}"
  | idDiffers file expected found =>
    s!"{file}: segment id mismatch: expected {expected.toHex}, got {found.toHex}"
  | suffixDiffers file expected found =>
    s!"{file}: segment suffix mismatch: expected {quoted expected}, got {quoted found}"
  | tooShortForFooter file length => s!"{file}: file too short for footer ({length} bytes)"
  | footerMagic file found => s!"{file}: bad footer magic {hex 8 found.toNat}"
  | unknownAlgorithm file number => s!"{file}: unknown checksum algorithm {number}"
  | illegalChecksum file stored => s!"{file}: illegal checksum value {hex 16 stored.toNat}"
  | checksumDiffers file stored actual =>
    s!"{file}: checksum mismatch: expected {hex 8 stored.toNat}, got {hex 8 actual.toNat} (file corrupted)"
  | emptyBlocks => "block size 0"
  | blockWidth file block width => s!"{file}: block {block} has {width} bits per value"
  | monotoneBlockWidth file block width => s!"{file}: monotonic block {block} has {width} bits per value"
  | fixedWidth width => s!"unsupported fixed width: {width} bits per value"
  | fixedWidthTruncated length needed => s!"fixed-width payload truncated: {length} < {needed} bytes"
  | nestedTooDeep file field => s!"{file}: field {field} nests deeper than 4 levels"
  | unknownTag file tag field => s!"{file}: unknown format tag {tag} for field {field}"
  | negativeOffset file offset => s!"{file}: negative data offset {offset}"
  | nestedLabel file field found => s!"{file}: nested entry of field {field} is labelled field {found}"
  | nestedLayout file field found =>
    s!"{file}: field {field} nests a {found.name} entry where numeric values are expected"
  | storedCount file field count expected => s!"{file}: field {field} stores {count} values, expected {expected}"
  | tooManyValues file field count documents =>
    s!"{file}: field {field} has {count} values for {documents} documents"
  | offsetOutside offset start stop => s!"data offset {offset} outside {start}..={stop}"
  | packedVersion file found => s!"{file}: packed version {found} (expected 2)"
  | tableSize file size => s!"{file}: table size {size} is not a power of two <= 256"
  | packedFormat file found => s!"{file}: unknown packed format {found}"
  | tableWidth file width size => s!"{file}: {width} bits per ordinal for a table of {size}"
  | addressOutside start stop length => s!"bytes address range {start}..{stop} outside payload of {length}"
  | ordinalOutside document ordinal size =>
    s!"document {document} has ordinal {ordinal} outside dictionary of {size}"
  | bytesAfterEntries file count => s!"{file}: {count} unexpected bytes after the field list"
  | fieldTwice file field => s!"{file}: field {field} written twice"
  | versionsDiffer metadata version data dataVersion =>
    s!"format versions differ: {metadata} has {version}, {data} has {dataVersion}"
  | infoTooShort file => s!"{file}: {IoError.endOfInput.text}"
  | infoIdDiffers file => s!"{file}: segment id mismatch"

end Corruption

namespace Unsupported

def message : Unsupported → String
  | ints => "ints are not supported by this source"
  | floats => "floats are not supported by this source"
  | byteStrings => "bytes are not supported by this source"
  | intsOfFloats => "ints requested from a float field"
  | floatsOfInts => "floats requested from an int field"
  | countOfConst => "const fields do not record a value count"
  | sortedValues => "field does not store sorted values"

end Unsupported

namespace BadArgument

def message : BadArgument → String
  | valueCount name count documents => s!"field {name} has {count} values for a segment of {documents} documents"
  | ordinal wanted count => s!"ordinal {wanted} out of range (value count {count})"

end BadArgument

namespace NamingPart

def label : NamingPart → String
  | dataCodec => "data codec"
  | metadataCodec => "metadata codec"
  | dataExtension => "data extension"
  | metadataExtension => "metadata extension"

end NamingPart

namespace BadNaming

def message : BadNaming → String
  | empty part => s!"{part.label} must not be empty"
  | notAscii part text => s!"{part.label} {quoted text} is not ASCII"
  | tooLong part length => s!"{part.label} is {length} bytes, at most 127 allowed"
  | notAlphanumeric part text => s!"{part.label} {quoted text} must be non-empty ASCII alphanumerics"
  | sameExtension text => s!"data and metadata extensions must differ (both {quoted text})"

end BadNaming

namespace Violation

/-- the wording of a broken precondition, where it has one -/
def message? : Violation → Option String
  | zeroBlockSize => some "block size must be positive"
  | unsupportedWidth width => some s!"unsupported fixed width: {width} bits per value"
  | unknownValue value => some s!"value {value} was never added to the norm map"
  | _ => none

end Violation

namespace Error

def message : Error → String
  | io fault => s!"IO error: {fault.text}"
  | fieldNotFound label => s!"Field not found: {label}"
  | wrongType expected got => s!"Invalid field type: expected {expected.name}, got {got.name}"
  | wrongLayout expected got => s!"Invalid field type: expected {expected.name}, got {got.name}"
  | corruption cause => s!"Index corruption: {cause.message}"
  | nullValue name document =>
    s!"Illegal doc values data for field {name}: got null for document {document}"
  | unsupported request => s!"Unsupported operation: {request.message}"
  | documentNotFound document => s!"Document not found: {document}"
  | invalidArgument cause => s!"Invalid argument: {cause.message}"
  | naming cause => s!"Invalid configuration: {cause.message}"
  | discarded metadata data => s!"Output discarded after a failed write: {metadata} and {data}"
  | violation cause => cause.message?.getD "broken precondition"

end Error

end ColumnStore
