/-
Block-delta packing: each block stores its least value once, and the offsets of its values from it.

A block starts with a token byte, the width doubled plus one if the least value is zero; another least value follows as a
varint. Offsets are taken modulo `2 ^ 64`, so any two 64-bit values can share a block. The width of a block is the least
that holds its largest offset.
-/
import ColumnStore.Bytes.ZigZag
import ColumnStore.Packing.Bits
import ColumnStore.Storage.Input

namespace ColumnStore.Packing

open Storage

/-- blocks of `count` values -/
def blockCount (size count : Nat) : Nat := (count + size - 1) / size

/-- most bytes that one buffer or table can ask the memory for -/
def memoryLimit : Nat := 0x7fffffffffffffff

/-- bytes of a value in the buffer of a block -/
def bufferedSize : Nat := 8

/-- bytes of a parsed block in the table of blocks -/
def tabledSize : Nat := 40

/-- a block has to hold at least one value, and to fit a buffer -/
def checkBlockSize (size : Nat) : Except Error Unit :=
  if size = 0 then .error (.violation .zeroBlockSize)
  else if memoryLimit < bufferedSize * size then .error (.violation .outOfMemory)
  else .ok ()

/-- how many blocks `length` values stand in; the table for them is asked for before the first one is read -/
def countBlocks (size length : Nat) : Reading Nat := do
  if size = 0 then Reading.corrupt fun _ => .emptyBlocks
  let count ← Reading.lift (Strict.divUp length size)
  if memoryLimit < tabledSize * count then throw (.violation .outOfMemory) else return count

/-- a writer of blocks: the pieces of the blocks that are full, and the values of the open one -/
structure BlockWriter where
  written : Array Bytes := #[]
  buffer : Array Int64 := #[]

namespace BlockWriter

variable (encode : List Int64 → List Bytes)

def flush (w : BlockWriter) : BlockWriter := { written := w.written ++ encode w.buffer.toList, buffer := #[] }

/-- take one more value, which may fill the open block -/
def add (size : Nat) (w : BlockWriter) (v : Int64) : BlockWriter :=
  let w := { w with buffer := w.buffer.push v }
  if w.buffer.size = size then w.flush encode else w

/-- all pieces, the last block perhaps a shorter one -/
def finish (w : BlockWriter) : List Bytes :=
  if w.buffer.isEmpty then w.written.toList else (w.flush encode).written.toList

end BlockWriter

/-- the pieces of values that are written in blocks of `size` -/
def blockwise (encode : List Int64 → List Bytes) (size : Nat) (values : List Int64) : List Bytes :=
  (values.foldl (BlockWriter.add encode size) {}).finish encode

/-- the least of some values, zero if there are none -/
def least (values : List Int64) : Int64 := (values.min?).getD 0

/-- the greatest of some values, zero if there are none -/
def greatest (values : List Int64) : Int64 := (values.max?).getD 0

namespace Delta

/-- how far a value lies above the least one -/
def offset (base v : Int64) : UInt64 := v.toUInt64 - base.toUInt64

def width (values : List Int64) : Nat := bitsNeeded (offset (least values) (greatest values))

def blockPieces (values : List Int64) : List Bytes :=
  let base := least values
  let width := width values
  let token := UInt8.ofNat (2 * width + if base = 0 then 1 else 0)
  [[token]] ++ (if base = 0 then [] else Varint.pieces (ZigZag.encode base - 1).toNat)
    ++ if width = 0 then [] else [pack width (values.map (offset base))]

/-- the pieces in which values are written -/
def pieces (size : Nat) (values : List Int64) : Except Error (List Bytes) :=
  match checkBlockSize size with
  | .error e => .error e
  | .ok () => .ok (blockwise blockPieces size values)

structure Block where
  base : Int64
  width : Nat
  data : ByteArray

structure Reader where
  blocks : Array Block
  size : Nat
  length : Nat

namespace Reader

/-- parse the block of a given number, which holds `count` values -/
def readBlock (number count : Nat) : Reading Block := do
  let token ← Reading.byte
  let width := token.toNat / 2
  if 64 < width then Reading.corrupt fun i => .blockWidth i.name number width
  let base ← if token &&& 1 ≠ 0 then pure 0 else (fun w => ZigZag.decode (w + 1)) <$> Reading.varint
  let data ← Reading.bytes (← Reading.lift (packedLength? count width))
  return ⟨base, width, data⟩

/-- parse `left` more blocks, the first of them number `number`, holding `count` values together -/
def readBlocks (size : Nat) : (left number count : Nat) → Array Block → Reading (Array Block)
  | 0, _, _, parsed => return parsed
  | left + 1, number, count, parsed => do
    let block ← readBlock number (min size count)
    readBlocks size left (number + 1) (count - size) (parsed.push block)

/-- parse `length` values from the cursor on -/
def read (size length : Nat) : Reading Reader := do
  return ⟨← readBlocks size (← countBlocks size length) 0 length #[], size, length⟩

/-- the value at `index`, which has to lie in a block -/
def get (r : Reader) (index : Nat) : Except Error Int64 := do
  let (number, place) ← Strict.divMod index r.size
  match r.blocks[number]? with
  | none => .error (.violation .outOfRange)
  | some block =>
    let offset ← Packing.get block.data block.width place
    return (block.base.toUInt64 + offset).toInt64

end Reader

end Delta

end ColumnStore.Packing
