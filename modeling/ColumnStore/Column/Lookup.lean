/-
Looking a byte string up in a rising sequence.

The sequence is only seen through a getter. The answer is the greatest ordinal whose string is not above the one looked
for, and whether the two are equal.
-/
import ColumnStore.Bytes.Basic
import ColumnStore.Search

namespace ColumnStore.Column

structure Lookup where
  /-- the string at `ordinal?` is the one looked for -/
  found : Bool
  /-- none if every string is greater -/
  ordinal? : Option Nat
  deriving DecidableEq, Repr

namespace Lookup

/-- the ordinal just below a place -/
def below : (place : Nat) → Option Nat
  | 0 => none
  | place + 1 => some place

def ofFound : Found → Lookup
  | .here place => ⟨true, some place⟩
  | .before place => ⟨false, below place⟩

/-- look `wanted` up among `count` strings -/
def run (entry : Nat → Except Error Bytes) (count : Nat) (wanted : Bytes) : Except Error Lookup :=
  match search (fun i => (Bytes.order · wanted) <$> entry i) count with
  | .ok found => .ok (ofFound found)
  | .error e => .error e

end Lookup

end ColumnStore.Column
