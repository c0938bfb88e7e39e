/-
Bit packing: unsigned values of one width, end to end, the lowest bit first in little-endian bytes.

`packInto` makes room in zero bytes and sets the bits of every value there, part by part as the bytes take them. `get`
reads one value back: with one eight-byte word where the field and the data allow it, byte by byte otherwise. Bytes past
the end of the data read as zero.
-/
import ColumnStore.Bytes.Basic
import ColumnStore.Strict

namespace ColumnStore.Packing

/-- bits of `v` without leading zeros -/
def bitsNeeded (v : UInt64) : Nat := if v = 0 then 0 else v.toNat.log2 + 1

/-- bits that hold `v`, at least one -/
def bitsRequired (v : UInt64) : Nat := max 1 (bitsNeeded v)

/-- the least of the widths 1, 2, 4 and 8 that holds `bits` bits, 8 where none does -/
def roundedWidth (bits : Nat) : Nat :=
  if bits ≤ 1 then 1 else if bits ≤ 2 then 2 else if bits ≤ 4 then 4 else 8

def packedLength (count width : Nat) : Nat := (count * width + 7) / 8

/-- bytes of `count` values, where their number of bits can be counted in a word -/
def packedLength? (count width : Nat) : Except Error Nat :=
  if count * width < UInt64.size then .ok (packedLength count width) else .error (.violation .overflow)

def lowBits (width : Nat) (w : UInt64) : UInt64 :=
  if 64 ≤ width then w else w &&& ((1 <<< UInt64.ofNat width) - 1)

def setBits (buffer : ByteArray) (index : Nat) (bits : UInt8) : ByteArray :=
  if h : index < buffer.size then buffer.set index (buffer[index] ||| bits) h else buffer

/-- write the low `left` bits of `v` from bit `shift` of byte `index` on, as many as the byte takes and the rest after it -/
def putBits (buffer : ByteArray) (index : Nat) (shift : Fin 8) (left : Nat) (v : UInt64) : ByteArray :=
  if left = 0 then buffer
  else
    let taken := min (8 - shift.val) left
    let part := (lowBits taken v <<< UInt64.ofNat shift.val).toUInt8
    putBits (setBits buffer index part) (index + 1) 0 (left - taken) (v >>> UInt64.ofNat taken)
termination_by left

/-- write the values one after the other, the first one from bit `place` of the buffer on -/
def putAll (width : Nat) : (buffer : ByteArray) → (place : Nat) → List UInt64 → ByteArray
  | buffer, _, [] => buffer
  | buffer, place, v :: vs => putAll width (putBits buffer (place / 8) (Fin.ofNat 8 place) width v) (place + width) vs

/-- append the values at `width` bits each: bytes of zeros, then the values in their places -/
def packInto (buffer : ByteArray) (width : Nat) (values : List UInt64) : ByteArray :=
  if width = 0 then buffer
  else
    let room := Bytes.appendTo buffer (List.replicate (packedLength values.length width) 0)
    putAll width room (8 * buffer.size) values

/-- the values at `width` bits each -/
def pack (width : Nat) (values : List UInt64) : Bytes := Bytes.ofArray (packInto .empty width values)

/-- a byte of the data, zero past its end -/
def byteAt (data : ByteArray) (index : Nat) : UInt8 := if h : index < data.size then data[index] else 0

def wordAt (data : ByteArray) (index : Nat) : UInt64 :=
  let part (k : Nat) : UInt64 := (byteAt data (index + k)).toUInt64 <<< UInt64.ofNat (8 * k)
  part 0 ||| part 1 ||| part 2 ||| part 3 ||| part 4 ||| part 5 ||| part 6 ||| part 7

/-- the eight bytes from `index` on as one word, all of them within the data -/
def word (data : ByteArray) (index : Nat) : Except Error UInt64 :=
  if index + 8 ≤ data.size then .ok (wordAt data index) else .error (.violation .outOfRange)

/-- the low `width` places of a word -/
def mask (width : Nat) : Except Error UInt64 :=
  if 64 ≤ width then .ok (-1) else (· - 1) <$> Strict.shiftUp 1 width

/-- read `left` bits from bit `shift` of byte `index` on into `acc`, the first of them to bit `place` -/
def gather (data : ByteArray) (index : Nat) (shift : Fin 8) (left place : Nat) (acc : UInt64) : UInt64 :=
  if left = 0 then acc
  else
    let taken := min (8 - shift.val) left
    let part := lowBits taken (byteAt data index >>> UInt8.ofNat shift.val).toUInt64
    gather data (index + 1) 0 (left - taken) (place + taken) (acc ||| part <<< UInt64.ofNat place)
termination_by left

/-- the value at `index`; a field has to lie below bit `2 ^ 64` and to end within a word past its first byte -/
def get (data : ByteArray) (width index : Nat) : Except Error UInt64 :=
  if width = 0 then .ok 0
  else
    let start := index * width
    let byte := start / 8
    let shift := start % 8
    if UInt64.size ≤ start then .error (.violation .overflow)
    else if shift + width ≤ 64 ∧ byte + 8 ≤ data.size then do
      let raw ← word data byte
      return raw >>> UInt64.ofNat shift &&& (← mask width)
    else if 64 + (8 - shift) % 8 < width then .error (.violation .overflow)
    else .ok (gather data byte (Fin.ofNat 8 start) width 0 0)

end ColumnStore.Packing
