/-
Byte strings and little-endian words.

Encodings are lists of bytes, file contents are byte arrays; `ofArray` views an array as the list of its bytes.
`value` is the number that a byte string stands for when its first byte is the least significant one, and
`littleEndian width n` writes the low `width` bytes of `n`.
-/
namespace ColumnStore

/-- a byte string: an encoding, or one value of a bytes column -/
abbrev Bytes := List UInt8

namespace Bytes

def ofArray (a : ByteArray) : Bytes := a.data.toList

def toByteArray (bs : Bytes) : ByteArray := ⟨List.toArray bs⟩

def appendTo (a : ByteArray) (bs : Bytes) : ByteArray := bs.foldl ByteArray.push a

/-- the number written, least significant byte first -/
def value : Bytes → Nat
  | [] => 0
  | b :: rest => b.toNat + 256 * value rest

/-- the low `width` bytes of `n`, least significant first -/
def littleEndian : (width n : Nat) → Bytes
  | 0, _ => []
  | width + 1, n => UInt8.ofNat n :: littleEndian width (n / 256)

def ofText (text : String) : Bytes := ofArray text.toUTF8

/-- order of byte strings: by the first byte that differs, a shorter string before its continuations -/
def order : Bytes → Bytes → Ordering
  | [], [] => .eq
  | [], _ :: _ => .lt
  | _ :: _, [] => .gt
  | a :: as, b :: bs => if a < b then .lt else if b < a then .gt else order as bs

@[simp] theorem length_littleEndian (width n : Nat) : (littleEndian width n).length = width := by
  induction width generalizing n with
  | zero => rfl
  | succ width ih => simp [littleEndian, ih]

@[simp] theorem ofArray_toByteArray (bs : Bytes) : ofArray (toByteArray bs) = bs := rfl

@[simp] theorem ofArray_appendTo (a : ByteArray) (bs : Bytes) : ofArray (appendTo a bs) = ofArray a ++ bs := by
  induction bs generalizing a with
  | nil => simp [appendTo]
  | cons b bs ih =>
    have h : appendTo a (b :: bs) = appendTo (a.push b) bs := rfl
    have hpush : ofArray (a.push b) = ofArray a ++ [b] := Array.toList_push
    rw [h, ih, hpush, List.append_assoc]
    rfl

def ofUInt32 (w : UInt32) : Bytes := littleEndian 4 w.toNat

def ofUInt64 (w : UInt64) : Bytes := littleEndian 8 w.toNat

/-- the eight bytes of a signed word, in two's complement -/
def ofInt64 (w : Int64) : Bytes := ofUInt64 w.toUInt64

def ofBitVec128 (w : BitVec 128) : Bytes := littleEndian 16 w.toNat

end Bytes

end ColumnStore
