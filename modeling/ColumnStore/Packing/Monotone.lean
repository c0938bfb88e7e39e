/-
Monotone packing for rising sequences.

Each block stores a base, an average slope and what remains: the value at place `i` is `base + ⌊slope * i⌋ + rest`, where
the product is taken in single precision and saturates. Writer and reader use the same prediction, so how it rounds does
not matter to what is read back. Evenly spaced values need no bits at all.
-/
import ColumnStore.Packing.Delta
import ColumnStore.Search

namespace ColumnStore.Packing.Monotone

open Storage

/-- the predicted distance from the base at place `index`, for a slope given by its bit pattern -/
def expected (slope : UInt32) (index : Nat) : Int64 :=
  (Float32.ofBits slope * (UInt64.ofNat index).toFloat32).toInt64

/-- the bit pattern of the average slope of a block, zero for a single value -/
def slope : List Int64 → UInt32
  | [] => 0
  | first :: rest =>
    match rest.getLast? with
    | none => 0
    | some last => ((last - first).toFloat32 / (UInt64.ofNat rest.length).toFloat32).toBits

/-- the values less their predictions -/
def errors (slope : UInt32) (values : List Int64) : List Int64 :=
  values.mapIdx fun i v => v - expected slope i

def blockPieces (values : List Int64) : List Bytes :=
  let slope := slope values
  let errors := errors slope values
  let base := least errors
  let rests := errors.map fun e => (e - base).toUInt64
  let width := bitsNeeded (rests.foldl max 0)
  Varint.pieces (ZigZag.encode base).toNat ++ [Bytes.ofUInt32 slope, [UInt8.ofNat width]]
    ++ if width = 0 then [] else [pack width rests]

/-- whether no value is smaller than the one before it -/
def isRising : List Int64 → Bool
  | a :: b :: rest => a ≤ b && isRising (b :: rest)
  | _ => true

/-- the pieces in which a rising sequence is written -/
def pieces (size : Nat) (values : List Int64) : Except Error (List Bytes) :=
  match checkBlockSize size with
  | .error e => .error e
  | .ok () =>
    if isRising values then .ok (blockwise blockPieces size values) else .error (.violation .descending)

structure Block where
  base : Int64
  slope : UInt32
  width : Nat
  data : ByteArray

structure Reader where
  blocks : Array Block
  size : Nat
  length : Nat

namespace Reader

/-- parse the block of a given number, which holds `count` values -/
def readBlock (number count : Nat) : Reading Block := do
  let base := ZigZag.decode (← Reading.varint)
  let slope ← Reading.uint32
  let width := (← Reading.byte).toNat
  if 64 < width then Reading.corrupt fun i => .monotoneBlockWidth i.name number width
  let data ← Reading.bytes (← Reading.lift (packedLength? count width))
  return ⟨base, slope, width, data⟩

/-- parse `left` more blocks, the first of them number `number`, holding `count` values together -/
def readBlocks (size : Nat) : (left number count : Nat) → Array Block → Reading (Array Block)
  | 0, _, _, parsed => return parsed
  | left + 1, number, count, parsed => do
    let block ← readBlock number (min size count)
    readBlocks size left (number + 1) (count - size) (parsed.push block)

/-- parse `length` values from the cursor on -/
def read (size length : Nat) : Reading Reader := do
  return ⟨← readBlocks size (← countBlocks size length) 0 length #[], size, length⟩

/-- the value at `index`, which has to lie in a block -/
def get (r : Reader) (index : Nat) : Except Error Int64 := do
  let (number, place) ← Strict.divMod index r.size
  match r.blocks[number]? with
  | none => .error (.violation .outOfRange)
  | some block =>
    let rest ← Packing.get block.data block.width place
    return block.base + expected block.slope place + rest.toInt64

/-- how the value at `index` compares with a target -/
def probe (r : Reader) (target : Int64) (index : Nat) : Except Error Ordering :=
  (fun v => compare v target) <$> r.get index

def search (r : Reader) (target : Int64) : Except Error Found := ColumnStore.search (r.probe target) r.length

end Reader

end ColumnStore.Packing.Monotone
