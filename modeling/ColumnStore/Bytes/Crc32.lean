/-
The 32-bit cyclic redundancy check of every file footer: reflected polynomial `0xEDB88320`, register preset to ones,
result complemented.

`feed` runs one byte through the register bit by bit; a checksum is the fold of `feed` over the bytes. The register can
be kept while bytes arrive, which is how an output knows its checksum without reading the file back.
-/
import ColumnStore.Bytes.Basic

namespace ColumnStore.Crc32

/-- generator polynomial, lowest bit first -/
def polynomial : UInt32 := 0xEDB88320

def initial : UInt32 := 0xFFFFFFFF

/-- divide one bit out of the register -/
def shift (register : UInt32) : UInt32 :=
  if register &&& 1 = 1 then (register >>> 1) ^^^ polynomial else register >>> 1

/-- divide `n` bits out of the register -/
def shifts : Nat → UInt32 → UInt32
  | 0, register => register
  | n + 1, register => shifts n (shift register)

/-- take one byte into the register -/
def feed (register : UInt32) (b : UInt8) : UInt32 := shifts 8 (register ^^^ b.toUInt32)

/-- the checksum that a register stands for -/
def finish (register : UInt32) : UInt32 := ~~~register

def feedAll (register : UInt32) (bs : Bytes) : UInt32 := bs.foldl feed register

def checksum (bs : Bytes) : UInt32 := finish (feedAll initial bs)

theorem feedAll_append (register : UInt32) (xs ys : Bytes) :
    feedAll register (xs ++ ys) = feedAll (feedAll register xs) ys := by
  simp [feedAll]

end ColumnStore.Crc32
