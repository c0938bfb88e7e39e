/-
Walking over a column, document by document.

A cursor asks a getter for one document per step. It never moves back: `advance` moves it up to a target and then steps.
Every step that answers leaves fewer documents ahead (`remaining_lt_of_next`), so a walk to the end is finite.
-/
import ColumnStore.Error.Basic

namespace ColumnStore.Column

/-- a place in a column -/
structure Cursor (α : Type) where
  get : (document : UInt32) → Except Error α
  documents : UInt32
  /-- the document that the next step answers -/
  document : UInt32 := 0

namespace Cursor

variable {α : Type}

/-- a cursor before the first document; a getter that refuses that document is refused -/
def create (documents : UInt32) (get : (document : UInt32) → Except Error α) : Except Error (Cursor α) :=
  if documents = 0 then .ok { get, documents }
  else
    match get 0 with
    | .ok _ => .ok { get, documents }
    | .error e => .error e

def remaining (c : Cursor α) : Nat := c.documents.toNat - c.document.toNat

def next (c : Cursor α) : Option (Except Error (UInt32 × α)) × Cursor α :=
  if c.documents ≤ c.document then (none, c)
  else ((some ((c.document, ·) <$> c.get c.document)), { c with document := c.document + 1 })

/-- the first document at or after both the cursor and a target, and its value -/
def advance (c : Cursor α) (target : UInt32) : Option (Except Error (UInt32 × α)) × Cursor α :=
  next { c with document := max c.document target }

theorem remaining_lt_of_next {c c' : Cursor α} {r : Except Error (UInt32 × α)} (h : c.next = (some r, c')) :
    c'.remaining < c.remaining := by
  unfold next at h
  split at h
  · simp at h
  · next ahead =>
    simp only [Prod.mk.injEq] at h
    obtain ⟨_, rfl⟩ := h
    have below : c.document.toNat < c.documents.toNat := by simpa [UInt32.le_iff_toNat_le] using ahead
    have bound := c.documents.toNat_lt
    simp only [remaining, UInt32.toNat_add, UInt32.reduceToNat]
    omega

/-- the values ahead after those collected, or the first error -/
def collect (c : Cursor α) (values : Array α) : Except Error (Array α) :=
  match _step : c.next with
  | (none, _) => .ok values
  | (some (.error e), _) => .error e
  | (some (.ok (_, value)), c) => collect c (values.push value)
termination_by c.remaining
decreasing_by exact remaining_lt_of_next _step

/-- the values ahead, or the first error -/
def toArray (c : Cursor α) : Except Error (Array α) := c.collect #[]

end Cursor

end ColumnStore.Column
