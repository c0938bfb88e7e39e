/-
What can go wrong, as causes.

An `Error` is what an operation answers instead of a value: a fault of the storage below, a file that is not what it
should be, a request that does not fit the column, or a broken precondition (`Violation`), which well-behaved callers
never see. The wording of each cause is in `Error.message`.
-/
import ColumnStore.Layout
import ColumnStore.Schema.Basic
import ColumnStore.Segment.Id
import ColumnStore.Text.Utf8

namespace ColumnStore

inductive IoKind where
  | notFound
  | unexpectedEof
  | invalidData
  | writeZero
  | alreadyExists
  | notADirectory
  | isADirectory
  | invalidInput
  | invalidFilename
  | other
  deriving DecidableEq, Repr

structure IoError where
  kind : IoKind
  text : String
  deriving DecidableEq, Repr

namespace IoError

/-- the input ended inside a value -/
def endOfInput : IoError := ⟨.unexpectedEof, "failed to fill whole buffer"⟩

/-- a varint needs an eleventh group -/
def varintTooLong : IoError := ⟨.invalidData, "varint too long"⟩

/-- a writer took none of the bytes offered -/
def writeZero : IoError := ⟨.writeZero, "failed to write whole buffer"⟩

end IoError

/-- what is wrong with the content of a file; `file` is its name -/
inductive Corruption where
  | readPastEnd (file : String) (position length : Nat)
  | sliceOutside (file : String) (start stop length : Nat)
  | varintTooLong (file : String) (position : Nat)
  | varintTooWide (file : String) (value : UInt64) (position : Nat)
  | invalidUtf8 (file : String) (fault : Text.Utf8.Fault)
  | headerMagic (file : String) (found : UInt32)
  | codecDiffers (file expected found : String)
  | versionOutside (file : String) (version least most : UInt32)
  | idDiffers (file : String) (expected found : SegmentId)
  | suffixDiffers (file expected found : String)
  | tooShortForFooter (file : String) (length : Nat)
  | footerMagic (file : String) (found : UInt32)
  | unknownAlgorithm (file : String) (number : UInt32)
  | illegalChecksum (file : String) (stored : UInt64)
  | checksumDiffers (file : String) (stored actual : UInt32)
  | emptyBlocks
  | blockWidth (file : String) (block width : Nat)
  | monotoneBlockWidth (file : String) (block width : Nat)
  | fixedWidth (width : Nat)
  | fixedWidthTruncated (length needed : Nat)
  | nestedTooDeep (file : String) (field : FieldNumber)
  | unknownTag (file : String) (tag : UInt8) (field : FieldNumber)
  | negativeOffset (file : String) (offset : Int64)
  | nestedLabel (file : String) (field found : FieldNumber)
  | nestedLayout (file : String) (field : FieldNumber) (found : Layout)
  | storedCount (file : String) (field : FieldNumber) (count expected : UInt32)
  | tooManyValues (file : String) (field : FieldNumber) (count documents : UInt32)
  | offsetOutside (offset start stop : Nat)
  | packedVersion (file : String) (found : UInt32)
  | tableSize (file : String) (size : UInt32)
  | packedFormat (file : String) (found : UInt32)
  | tableWidth (file : String) (width size : UInt32)
  | addressOutside (start stop : Int64) (length : Nat)
  | ordinalOutside (document : UInt32) (ordinal : Int64) (size : UInt32)
  | bytesAfterEntries (file : String) (count : Nat)
  | fieldTwice (file : String) (field : FieldNumber)
  | versionsDiffer (metadata : String) (version : UInt32) (data : String) (dataVersion : UInt32)
  | infoTooShort (file : String)
  | infoIdDiffers (file : String)
  deriving DecidableEq, Repr

/-- a value that the source of a column does not give out -/
inductive Unsupported where
  | ints
  | floats
  | byteStrings
  | intsOfFloats
  | floatsOfInts
  | countOfConst
  | sortedValues
  deriving DecidableEq, Repr

inductive BadArgument where
  | valueCount (name : String) (count : Nat) (documents : UInt32)
  | ordinal (ordinal count : UInt32)
  deriving DecidableEq, Repr

/-- the four parts of a file naming -/
inductive NamingPart where
  | dataCodec
  | metadataCodec
  | dataExtension
  | metadataExtension
  deriving DecidableEq, Repr

inductive BadNaming where
  | empty (part : NamingPart)
  | notAscii (part : NamingPart) (text : String)
  | tooLong (part : NamingPart) (length : Nat)
  | notAlphanumeric (part : NamingPart) (text : String)
  | sameExtension (text : String)
  deriving DecidableEq, Repr

/-- a precondition that a caller has to keep and broke -/
inductive Violation where
  | zeroBlockSize
  | unsupportedWidth (width : Nat)
  | unknownValue (value : Int64)
  | valueTooWide
  | descending
  | outOfRange
  | overflow
  | divisionByZero
  | outOfMemory
  | unprintableIdentity
  deriving DecidableEq, Repr

inductive Error where
  | io (fault : IoError)
  | fieldNotFound (label : String)
  | wrongType (expected got : ValueType)
  | wrongLayout (expected : ValueType) (got : Layout)
  | corruption (cause : Corruption)
  | nullValue (name : String) (document : Nat)
  | unsupported (request : Unsupported)
  | documentNotFound (document : UInt32)
  | invalidArgument (cause : BadArgument)
  | naming (cause : BadNaming)
  | discarded (metadata data : String)
  | violation (cause : Violation)
  deriving DecidableEq, Repr

end ColumnStore
