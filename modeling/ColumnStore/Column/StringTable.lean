/-
Stored byte strings: all of them end to end, and the address at which each one starts.
-/
import ColumnStore.Column.Reader

namespace ColumnStore.Column

open Packing Storage

/-- `count` decoded byte strings -/
structure StringTable where
  content : ByteArray
  addresses : Monotone.Reader
  count : UInt32

namespace StringTable

def read (offset : UInt64) (count : UInt32) : Reading StringTable := do
  Reading.seek offset.toNat
  let content ← Reading.bytes (← Reading.varint).toNat
  let addresses ← Monotone.Reader.read (← readBlockSize) (count.toNat + 1)
  return ⟨content, addresses, count⟩

/-- the string of a number below `count`, whose addresses have to lie in the content -/
def get (t : StringTable) (index : UInt32) : Except Error Bytes :=
  if t.count ≤ index then .error (.invalidArgument (.ordinal index t.count))
  else do
    let start ← t.addresses.get index.toNat
    let stop ← t.addresses.get (index.toNat + 1)
    if start < 0 ∨ stop < start ∨ t.content.size < stop.toUInt64.toNat then
      .error (.corruption (.addressOutside start stop t.content.size))
    else Bytes.ofArray <$> Strict.slice t.content start.toUInt64.toNat stop.toUInt64.toNat

def footprint (t : StringTable) : Nat :=
  t.addresses.blocks.foldl (fun size block => size + 16 + block.data.size) (8 + t.content.size)

end StringTable

end ColumnStore.Column
