/-
Header and footer of the two segment files.

A header holds a magic number, the name of the codec, the format version, the segment id and the suffix; a reader asks for
exactly the values it expects. A footer holds the complemented magic number, the number of the checksum algorithm and the
checksum of everything before it. `checkFooter` answers where the body ends, so a changed byte anywhere is noticed before
the content is looked at.
-/
import ColumnStore.Storage.Input
import ColumnStore.Storage.Output

namespace ColumnStore.Framing

open Storage

/-- first word of a header -/
def magic : UInt32 := 0x3fd76c17

/-- first word of a footer -/
def footerMagic : UInt32 := ~~~magic

/-- number of the one checksum algorithm, CRC-32 -/
def crcAlgorithm : UInt32 := 0

/-- bytes of a footer -/
def footerSize : Nat := 16

def maxNameLength : Nat := 127

/-- whether a name can stand in a header -/
def isName (name : String) : Bool := name.toList.all (·.toNat < 128) && name.utf8ByteSize ≤ maxNameLength

structure Identity where
  codec : String
  id : SegmentId
  version : UInt32 := 0
  suffix : String := ""
  deriving DecidableEq, Repr

def headerPieces (h : Identity) : Except Error (List Bytes) :=
  if isName h.codec && isName h.suffix then
    .ok <| [Bytes.ofUInt32 magic] ++ Piece.text h.codec ++
      [Bytes.ofUInt32 h.version, h.id.toBytes, [UInt8.ofNat h.suffix.utf8ByteSize], Bytes.ofText h.suffix]
  else .error (.violation .unprintableIdentity)

def header (h : Identity) : Except Error Bytes := (headerPieces h).map List.flatten

def headerLength (codec suffix : String) : Nat := 4 + 1 + codec.utf8ByteSize + 4 + 16 + 1 + suffix.utf8ByteSize

/-- read a header and hold it against what is expected; the version has to lie within bounds -/
def checkHeader (codec : String) (least most : UInt32) (id : SegmentId) (suffix : String) : Reading UInt32 := do
  let found ← Reading.uint32
  if found ≠ magic then Reading.corrupt fun i => .headerMagic i.name found
  let foundCodec ← Reading.text
  if foundCodec ≠ codec then Reading.corrupt fun i => .codecDiffers i.name codec foundCodec
  let version ← Reading.uint32
  if version < least ∨ most < version then Reading.corrupt fun i => .versionOutside i.name version least most
  let foundId : SegmentId := ⟨← Reading.uint128⟩
  if foundId ≠ id then Reading.corrupt fun i => .idDiffers i.name id foundId
  let length ← Reading.byte
  let foundSuffix := Bytes.ofArray (← Reading.bytes length.toNat)
  if foundSuffix ≠ Bytes.ofText suffix then
    Reading.corrupt fun i => .suffixDiffers i.name suffix (Text.Utf8.decodeLossy foundSuffix)
  return version

/-- the footer of a file whose other bytes are `body` -/
def footer (body : Bytes) : Bytes :=
  let start := Bytes.ofUInt32 footerMagic ++ Bytes.ofUInt32 crcAlgorithm
  start ++ Bytes.ofUInt64 (Crc32.checksum (body ++ start)).toUInt64

def wordAt (data : ByteArray) (position : Nat) : Except Error UInt32 := do
  return UInt32.ofNat (Bytes.ofArray (← Strict.slice data position (position + 4))).value

/-- check the end of a whole file, and say how long the part before the footer is -/
def checkFooter (i : Input) : Except Error Nat := do
  let corrupt (cause : Corruption) : Except Error Nat := .error (.corruption cause)
  if i.length < footerSize then corrupt (.tooShortForFooter i.name i.length)
  else
    let start ← Strict.sub i.length footerSize
    let found ← wordAt i.data start
    if found ≠ footerMagic then corrupt (.footerMagic i.name found)
    else
      let algorithm ← wordAt i.data (start + 4)
      if algorithm ≠ crcAlgorithm then corrupt (.unknownAlgorithm i.name algorithm)
      else
        let stored := UInt64.ofNat (Bytes.ofArray (← Strict.slice i.data (start + 8) i.length)).value
        if stored >>> 32 ≠ 0 then corrupt (.illegalChecksum i.name stored)
        else
          let actual := Crc32.checksum (Bytes.ofArray (← Strict.slice i.data 0 (start + 8)))
          if stored.toUInt32 ≠ actual then corrupt (.checksumDiffers i.name stored.toUInt32 actual)
          else .ok start

end ColumnStore.Framing

namespace ColumnStore.Storage.Output

def writeHeader (d : Directory) (o : Output) (h : Framing.Identity) : Directory × Output × Except Error Unit :=
  match Framing.headerPieces h with
  | .error e => (d, o, .error e)
  | .ok pieces =>
    match o.writePieces d pieces with
    | (d, o, .ok ()) => (d, o, .ok ())
    | (d, o, .error fault) => (d, o, .error (.io fault))

def writeFooter (d : Directory) (o : Output) : Directory × Output × Except IoError Unit :=
  match o.writePieces d [Bytes.ofUInt32 Framing.footerMagic, Bytes.ofUInt32 Framing.crcAlgorithm] with
  | (d, o, .ok ()) => o.writeAll d (Bytes.ofUInt64 o.checksum.toUInt64)
  | (d, o, .error fault) => (d, o, .error fault)

end ColumnStore.Storage.Output
