/-
What one scan learns about a column of numbers, and which layout follows from it.

A column without two different values needs no payload. A long column in which more than thirty of thirty-one values are
missing is stored by its present values only. Up to 256 distinct values make a table, unless the ordinals would take a byte
and the values themselves fit one. Everything else is stored as offsets in blocks.
-/
import ColumnStore.Column.Distinct
import ColumnStore.Column.Share
import ColumnStore.Packing.Bits

namespace ColumnStore.Column

/-- the number that stands for "no value" -/
def missing : Int64 := 0

/-- most distinct values of a table; shorter columns are never stored by their present values only -/
def maxTableValues : Nat := 256

structure Stats where
  count : Nat := 0
  missing : Nat := 0
  least : Int64 := Int64.maxValue
  greatest : Int64 := Int64.minValue
  /-- given up past `maxTableValues` -/
  distinct : Option Distinct := some {}

namespace Stats

/-- take a value among the distinct ones, as long as there are not too many -/
def addDistinct (m : Distinct) (v : Int64) : Option Distinct :=
  let (m, new) := m.add v
  if new && maxTableValues < m.size then none else some m

def observe (s : Stats) (v : Int64) : Stats where
  count := s.count + 1
  missing := if v = Column.missing then s.missing + 1 else s.missing
  least := min s.least v
  greatest := max s.greatest v
  distinct := s.distinct.bind (addDistinct · v)

/-- scan values until the end or the first null -/
def scan (name : String) (s : Stats) : List (Option Int64) → Except Error Stats
  | [] => .ok s
  | none :: _ => .error (.nullValue name s.count)
  | some v :: vs => scan name (s.observe v) vs

/-- scan a whole column; the extremes of an empty one are zero -/
def collect (name : String) (values : List (Option Int64)) : Except Error Stats :=
  match scan name {} values with
  | .error e => .error e
  | .ok s => .ok (if s.count = 0 then { s with least := Column.missing, greatest := Column.missing } else s)

/-- width of an ordinal, where a table is possible -/
def tableWidth? (s : Stats) : Option Nat :=
  s.distinct.map fun m => Packing.roundedWidth (Packing.bitsRequired (UInt64.ofNat (m.size - 1)))

/-- more than thirty of thirty-one values are missing, in a long column -/
def isSparse (s : Stats) : Bool :=
  maxTableValues < s.count && exceedsShare (UInt32.ofNat s.missing) (UInt32.ofNat s.count)

/-- every value fits a signed byte -/
def fitsByte (s : Stats) : Bool := -128 ≤ s.least && s.greatest ≤ 127

/-- the cheapest layout -/
def layout (s : Stats) : Layout :=
  match s.distinct with
  | some m =>
    if m.size ≤ 1 then .const
    else if s.isSparse then .indirect
    else if s.tableWidth? = some 8 && s.fitsByte then .uncompressed
    else .table
  | none => if s.isSparse then .indirect else .delta

/-! ## What a scan counts -/

theorem missing_of_scan {name : String} {values : List (Option Int64)} {s t : Stats} (h : scan name s values = .ok t) :
    t.missing = s.missing + values.count (some Column.missing) := by
  induction values generalizing s with
  | nil => simp_all [scan]
  | cons v vs ih =>
    cases v with
    | none => simp [scan] at h
    | some v =>
      rw [ih (by simpa [scan] using h), List.count_cons]
      by_cases hv : v = Column.missing
      · simp [observe, hv]
        omega
      · simp [observe, hv]

theorem missing_of_collect {name : String} {values : List (Option Int64)} {s : Stats}
    (h : collect name values = .ok s) : s.missing = values.count (some Column.missing) := by
  unfold collect at h
  split at h
  · simp at h
  · next t ht =>
    have counted := missing_of_scan ht
    split at h
    · cases h
      simpa using counted
    · cases h
      simpa using counted

/-- a column stored by its present values only misses a value -/
theorem missing_pos_of_layout {s : Stats} (h : s.layout = .indirect) : 0 < s.missing := by
  have sparse : s.isSparse = true := by
    cases hs : s.isSparse
    · grind [layout]
    · rfl
  rw [isSparse, Bool.and_eq_true] at sparse
  rw [Nat.pos_iff_ne_zero]
  intro none
  rw [none, show UInt32.ofNat 0 = 0 from rfl, exceedsShare_zero] at sparse
  exact absurd sparse.2 (by decide)

end Stats

end ColumnStore.Column
