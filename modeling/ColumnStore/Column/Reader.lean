/-
Random access to a stored column of numbers.

`NumberReader.read` decodes what the entry of a column points at, once; `get` then answers any index. A column that is
stored by its present values only finds an index among the documents that carry a value, and answers "no value" for all
others.
-/
import ColumnStore.Column.Entry
import ColumnStore.Column.Plan

namespace ColumnStore.Column

open Packing Storage

/-- a decoded column of numbers -/
inductive NumberReader where
  | const (value : Int64)
  | uncompressed (data : ByteArray)
  | table (values : Array Int64) (ordinals : FixedWidth.Reader)
  | delta (values : Delta.Reader)
  | indirect (documents : Monotone.Reader) (values : NumberReader)

/-! ## Decoding -/

/-- the version that a packed payload starts with -/
def readPackedVersion : Reading Unit := do
  let found ← Reading.varint32
  if found ≠ packedVersion then Reading.corrupt fun i => .packedVersion i.name found

/-- the version and the block size that a payload in blocks starts with -/
def readBlockSize : Reading Nat := do
  readPackedVersion
  return (← Reading.varint32).toNat

def readWords : (count : Nat) → (words : Array Int64) → Reading (Array Int64)
  | 0, words => return words
  | count + 1, words => do readWords count (words.push (← Reading.int64))

/-- the number of values in a table has to be the number of its possible ordinals -/
def isTableSize (size : UInt32) : Bool := [1, 2, 4, 8, 16, 32, 64, 128, 256].contains size

def readTable (count : Nat) : Reading NumberReader := do
  readPackedVersion
  let size ← Reading.varint32
  if !isTableSize size then Reading.corrupt fun i => .tableSize i.name size
  let values ← readWords size.toNat #[]
  let format ← Reading.varint32
  if format ≠ packedFormat then Reading.corrupt fun i => .packedFormat i.name format
  let width ← Reading.varint32
  if 8 < width then Reading.corrupt fun i => .tableWidth i.name width size
  let ordinals ← Reading.lift (Strict.shiftUp 1 width.toNat)
  if ordinals.toNat ≠ size.toNat then Reading.corrupt fun i => .tableWidth i.name width size
  let rest ← Reading.bytes (← get).remaining
  match FixedWidth.Reader.ofBytes rest width.toNat count with
  | .ok ordinals => return .table values ordinals
  | .error e => throw e

namespace NumberReader

/-- decode what an entry points at -/
def read : NumberEntry → Reading NumberReader
  | .const value => return .const value
  | .uncompressed count offset => do
    Reading.seek offset.toNat
    return .uncompressed (← Reading.bytes count.toNat)
  | .table count offset => do
    Reading.seek offset.toNat
    readTable count.toNat
  | .delta count offset => do
    Reading.seek offset.toNat
    return .delta (← Delta.Reader.read (← readBlockSize) count.toNat)
  | .indirect count offset values => do
    Reading.seek offset.toNat
    let documents ← Monotone.Reader.read (← readBlockSize) count.toNat
    return .indirect documents (← read values)

/-! ## Access -/

/-- the value at an index, which has to lie within the column -/
def get : NumberReader → (index : Nat) → Except Error Int64
  | const value, _ => .ok value
  | uncompressed data, index =>
    if h : index < data.size then .ok (data[index].toInt8.toInt64) else .error (.violation .outOfRange)
  | table values ordinals, index =>
    match ordinals.get index with
    | .error e => .error e
    | .ok ordinal =>
      match values[ordinal.toNat]? with
      | some value => .ok value
      | none => .error (.violation .outOfRange)
  | delta values, index => values.get index
  | indirect documents values, index =>
    match documents.search (Int64.ofNat index) with
    | .error e => .error e
    | .ok (.here place) => values.get place
    | .ok (.before _) => .ok missing

def layout : NumberReader → Layout
  | const _ => .const
  | uncompressed _ => .uncompressed
  | table .. => .table
  | delta _ => .delta
  | indirect .. => .indirect

/-- stored values, where the layout counts them -/
def count? : NumberReader → Option UInt32
  | const _ => none
  | uncompressed data => some (UInt32.ofNat data.size)
  | table _ ordinals => some (UInt32.ofNat ordinals.length)
  | delta values => some (UInt32.ofNat values.length)
  | indirect documents _ => some (UInt32.ofNat documents.length)

/-- bytes in memory: a word for the reader itself, and what it decoded -/
def footprint : NumberReader → Nat
  | const _ => 8
  | uncompressed data => 8 + data.size
  | table values ordinals => 8 + 8 * values.size + ordinals.data.size
  | delta values => values.blocks.foldl (fun size block => size + 16 + block.data.size) 8
  | indirect documents values =>
    documents.blocks.foldl (fun size block => size + 16 + block.data.size) (8 + values.footprint)

end NumberReader

end ColumnStore.Column
