/-
Columns as streams: one entry per document, in order of documents.

A number may be null, which no column that is written may hold; zero stands for "no value". `present` and `documents` cut a
sparse column in two: its values, and where they are. `merge` joins the live documents of several segments.
-/
import ColumnStore.Column.Stats

namespace ColumnStore.Column

/-- entries of a column of numbers; none is a null -/
abbrev Numbers := List (Option Int64)

/-- entries of a column of byte strings; none is a null -/
abbrev Strings := List (Option Bytes)

/-- the entries that are not missing, nulls kept -/
def present (values : Numbers) : Numbers := values.filter (· != some missing)

theorem length_present_lt {values : Numbers} (h : 0 < values.count (some missing)) :
    (present values).length < values.length := by
  have member : some missing ∈ values := List.count_pos_iff.1 h
  exact List.length_filter_lt_length_iff_exists.2 ⟨_, member, by simp⟩

/-- the documents whose entry is not missing, the first of them numbered `first` -/
def documentsFrom (first : Nat) : Numbers → List Nat
  | [] => []
  | v :: vs => if v == some missing then documentsFrom (first + 1) vs else first :: documentsFrom (first + 1) vs

/-- the documents whose entry is not missing, rising -/
def documents (values : Numbers) : List Nat := documentsFrom 0 values

/-- the entries of live documents; documents past the end of the mask are live -/
def keepLive : Numbers → (live : List Bool) → Numbers
  | vs, [] => vs
  | [], _ => []
  | v :: vs, live :: rest => if live then v :: keepLive vs rest else keepLive vs rest

/-- one segment of a merge -/
structure MergePart where
  values : Numbers
  live : Option (List Bool) := none

/-- the entries of a part that go into the merge -/
def MergePart.entries (part : MergePart) : Numbers :=
  match part.live with
  | none => part.values
  | some live => keepLive part.values live

/-- the live entries of all parts, in order -/
def merge (parts : List MergePart) : Numbers := parts.flatMap MergePart.entries

def mergedCount (parts : List MergePart) : Nat := parts.foldl (fun count part => count + part.entries.length) 0

end ColumnStore.Column
