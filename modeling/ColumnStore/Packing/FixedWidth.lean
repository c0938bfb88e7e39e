/-
Fixed-width packing at 1, 2, 4 or 8 bits.

A little-endian word of 64 bits holds 64, 32, 16 or 8 values and no value straddles two words, so a look-up is one word,
one shift and one mask. A writer puts value above value into its open word, and writes the word when it is full. The
last word is padded with zeros.
-/
import ColumnStore.Packing.Bits

namespace ColumnStore.Packing.FixedWidth

def isSupported (width : Nat) : Bool := width = 1 || width = 2 || width = 4 || width = 8

def perWord (width : Nat) : Nat := 64 / width

def byteLength (count width : Nat) : Nat := (count + perWord width - 1) / perWord width * 8

/-- a writer of words: the pieces of the words that are full, the open word, and how many values it holds -/
structure Writer where
  written : Array Bytes := #[]
  word : UInt64 := 0
  filled : Nat := 0
  /-- values taken so far -/
  count : Nat := 0

namespace Writer

/-- write the open word -/
def flush (w : Writer) : Writer := { w with written := w.written.push (Bytes.ofUInt64 w.word), word := 0, filled := 0 }

/-- take one more value above those of the open word, which may be full then -/
def add (width : Nat) (w : Writer) (v : UInt64) : Except Error Writer :=
  if v >>> UInt64.ofNat width == 0 then
    let w := { w with
      word := w.word ||| v <<< UInt64.ofNat (w.filled * width)
      filled := w.filled + 1
      count := w.count + 1 }
    .ok (if w.filled = perWord width then w.flush else w)
  else .error (.violation .valueTooWide)

/-- all pieces, an open word among them with zeros above its values -/
def finish (w : Writer) : List Bytes := if w.filled = 0 then w.written.toList else w.flush.written.toList

/-- a writer that has taken the values -/
def ofValues (width : Nat) (values : List UInt64) : Except Error Writer :=
  if isSupported width then values.foldlM (add width) {} else .error (.violation (.unsupportedWidth width))

end Writer

/-- the pieces in which values are written: one word each -/
def pieces (width : Nat) (values : List UInt64) : Except Error (List Bytes) :=
  Writer.finish <$> Writer.ofValues width values

structure Reader where
  data : ByteArray
  width : Nat
  length : Nat

namespace Reader

/-- view the start of a payload as `length` values -/
def ofBytes (data : ByteArray) (width length : Nat) : Except Error Reader :=
  if isSupported width then do
    let needed := (← Strict.divUp length (perWord width)) * 8
    if data.size < needed then .error (.corruption (.fixedWidthTruncated data.size needed))
    else (⟨·, width, length⟩) <$> Strict.slice data 0 needed
  else .error (.corruption (.fixedWidth width))

/-- the value at `index`, which has to lie in a word of the payload -/
def get (r : Reader) (index : Nat) : Except Error UInt64 := do
  let (number, place) ← Strict.divMod index (perWord r.width)
  let raw ← word r.data (number * 8)
  let above ← Strict.shiftUp 1 r.width
  return raw >>> UInt64.ofNat (place * r.width) &&& (above - 1)

end Reader

end ColumnStore.Packing.FixedWidth
