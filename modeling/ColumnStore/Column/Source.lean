/-
What a loaded column answers.

A source knows the type of its column and how many documents it covers. Each getter answers for one type: asked for another
type, or for a document past the end, it has an error. The strings of a sorted column can also be asked for by ordinal, and
looked up.
-/
import ColumnStore.Column.Lookup
import ColumnStore.Column.StringTable

namespace ColumnStore.Column

open Storage

/-- how the words of a column of numbers are meant -/
inductive NumberKind where
  | int
  | float
  deriving DecidableEq, Repr

structure NumberSource where
  reader : NumberReader
  kind : NumberKind
  documents : UInt32

/-- a loaded column that goes through a sorted dictionary -/
structure SortedSource where
  dictionary : StringTable
  ordinals : NumberReader
  documents : UInt32

inductive Source where
  | numbers (source : NumberSource)
  | strings (table : StringTable)
  | sorted (source : SortedSource)

/-- a document has to lie below the number of documents -/
def checkDocument (document documents : UInt32) : Except Error Unit :=
  if documents ≤ document then .error (.documentNotFound document) else .ok ()

namespace NumberSource

/-- the word of a document, if it is meant as `kind` -/
def word (s : NumberSource) (kind : NumberKind) (document : UInt32) : Except Error Int64 := do
  checkDocument document s.documents
  if s.kind = kind then s.reader.get document.toNat
  else
    match kind with
    | .int => .error (.unsupported .intsOfFloats)
    | .float => .error (.unsupported .floatsOfInts)

end NumberSource

namespace SortedSource

/-- decode the ordinals, then the dictionary -/
def read (offset : UInt64) (size : UInt32) (ordinals : NumberEntry) (documents : UInt32) : Reading SortedSource := do
  let ordinals ← NumberReader.read ordinals
  return ⟨← StringTable.read offset size, ordinals, documents⟩

/-- the ordinal of a document's string; 0 stands for "no value" -/
def ordinal (s : SortedSource) (document : UInt32) : Except Error UInt32 := do
  checkDocument document s.documents
  let ordinal ← s.ordinals.get document.toNat
  if ordinal < 0 ∨ s.dictionary.count.toNat ≤ ordinal.toNatClampNeg then
    .error (.corruption (.ordinalOutside document ordinal s.dictionary.count))
  else .ok (UInt32.ofNat ordinal.toNatClampNeg)

def entry (s : SortedSource) (ordinal : UInt32) : Except Error Bytes := s.dictionary.get ordinal

def bytes (s : SortedSource) (document : UInt32) : Except Error Bytes := do s.entry (← s.ordinal document)

/-- the place of a string among those of the dictionary -/
def lookup (s : SortedSource) (wanted : Bytes) : Except Error Lookup :=
  Lookup.run (fun i => s.entry (UInt32.ofNat i)) s.dictionary.count.toNat wanted

end SortedSource

namespace Source

def documents : Source → UInt32
  | numbers s => s.documents
  | strings table => table.count
  | sorted s => s.documents

def int (s : Source) (document : UInt32) : Except Error Int64 :=
  match s with
  | numbers s => s.word .int document
  | _ => .error (.unsupported .ints)

/-- the bit pattern of the float of a document -/
def float (s : Source) (document : UInt32) : Except Error UInt64 :=
  match s with
  | numbers s => Int64.toUInt64 <$> s.word .float document
  | _ => .error (.unsupported .floats)

def bytes (s : Source) (document : UInt32) : Except Error Bytes :=
  match s with
  | numbers _ => .error (.unsupported .byteStrings)
  | strings table => do
    checkDocument document table.count
    table.get document
  | sorted s => s.bytes document

/-- stored values, or entries of the dictionary -/
def count : Source → Except Error UInt32
  | numbers s =>
    match s.reader.count? with
    | some count => .ok count
    | none => .error (.unsupported .countOfConst)
  | strings table => .ok table.count
  | sorted s => .ok s.dictionary.count

/-- the same source, where it goes through a sorted dictionary -/
def asSorted? : Source → Option SortedSource
  | sorted s => some s
  | _ => none

def footprint : Source → Nat
  | numbers s => 8 + s.reader.footprint
  | strings table => table.footprint
  | sorted s => 8 + s.dictionary.footprint + s.ordinals.footprint

/-! ## Writing again -/

/-- the first `count` integers as a column to be written again; what cannot be answered is null -/
def values (s : Source) (count : Nat) : Numbers :=
  (List.range count).map fun i => (s.int (UInt32.ofNat i)).toOption

/-- how many documents a merge asks for, if `left` of them are left from `document` on: those up to and with the first live
one that cannot be answered, for no column is written past a null -/
def asked (s : Source) (live : List Bool) (document : Nat) : (left : Nat) → Nat
  | 0 => document
  | left + 1 =>
    if (s.int (UInt32.ofNat document)).isOk || live.head? = some false then s.asked live.tail (document + 1) left
    else document + 1

/-- the first `documents` integers as one segment of a merge -/
def part (s : Source) (documents : UInt32) (live : Option (List Bool)) : MergePart :=
  { values := s.values (s.asked (live.getD []) 0 documents.toNat), live }

end Source

end ColumnStore.Column
