/-
Variable-length integers: seven bits per byte, the low group first, the high bit set on every byte but the last.

`encode` writes the shortest form. `decode` takes at most ten groups, which is what a 64-bit value needs; bits that a
tenth group holds past the 64th are not kept.
-/
import ColumnStore.Bytes.Basic

namespace ColumnStore.Varint

/-- the groups of `n`, each but the last marked as continued -/
def encode (n : Nat) : Bytes :=
  if n < 128 then [UInt8.ofNat n] else UInt8.ofNat (n % 128 + 128) :: encode (n / 128)
termination_by n
decreasing_by omega

/-- the pieces in which a varint is offered to a file: one byte each -/
def pieces (n : Nat) : List Bytes := (encode n).map fun b => [b]

/-- most groups of a 64-bit value -/
def maxGroups : Nat := 10

/-- why a byte string does not start with a varint -/
inductive Fault where
  | endOfInput
  | tooLong
  deriving DecidableEq, Repr

/-- the low seven bits of a byte, moved to their place -/
def group (b : UInt8) (shift : UInt64) : UInt64 := (b &&& 0x7f).toUInt64 <<< shift

def continues (b : UInt8) : Bool := b &&& 0x80 != 0

/-- collect at most `groups` more groups into `acc` -/
def decodeFrom : (groups : Nat) → (shift acc : UInt64) → Bytes → Except Fault (UInt64 × Bytes)
  | 0, _, _, _ => .error .tooLong
  | _ + 1, _, _, [] => .error .endOfInput
  | groups + 1, shift, acc, b :: rest =>
    if continues b then decodeFrom groups (shift + 7) (acc ||| group b shift) rest
    else .ok (acc ||| group b shift, rest)

/-- the value at the start of a byte string, and what follows it -/
def decode (bs : Bytes) : Except Fault (UInt64 × Bytes) := decodeFrom maxGroups 0 0 bs

end ColumnStore.Varint
