/-
A handle on one column that keeps at most one loaded source.

The loader is asked anew in every run and may answer differently each time, so a source is known by the run that made it
(`Shared`). Only `getOrLoad` fills the cache, and only when it is empty; `load` and `loadSorted` pass it by, and `release`
empties it.
-/
import ColumnStore.Column.Source

namespace ColumnStore.Column

/-- something loaded, and the run of the loader that made it -/
structure Shared (α : Type) where
  run : Nat
  value : α

/-- a column, how it is loaded, and what is kept of it -/
structure Handle where
  field : FieldNumber
  loader : (run : Nat) → Except Error Source
  /-- how the column is loaded as a sorted one, where it is one -/
  sortedLoader? : Option ((run : Nat) → Except Error SortedSource) := none
  /-- runs of the loader so far -/
  runs : Nat := 0
  /-- runs of the loader of sorted columns so far -/
  sortedRuns : Nat := 0
  cached? : Option (Shared Source) := none

namespace Handle

/-- runs of either loader so far, by which they are numbered -/
def started (h : Handle) : Nat := h.runs + h.sortedRuns

/-- load a new source, past the cache -/
def load (h : Handle) : Handle × Except Error (Shared Source) :=
  ({ h with runs := h.runs + 1 }, (Shared.mk h.started ·) <$> h.loader h.started)

/-- load a new sorted source, past the cache -/
def loadSorted (h : Handle) : Handle × Except Error (Shared SortedSource) :=
  match h.sortedLoader? with
  | some loader => ({ h with sortedRuns := h.sortedRuns + 1 }, (Shared.mk h.started ·) <$> loader h.started)
  | none => (h, .error (.unsupported .sortedValues))

/-- the kept source, loaded first if there is none -/
def getOrLoad (h : Handle) : Handle × Except Error (Shared Source) :=
  match h.cached? with
  | some source => (h, .ok source)
  | none =>
    match h.load with
    | (h, .ok source) => ({ h with cached? := some source }, .ok source)
    | (h, .error e) => (h, .error e)

/-- give up the kept source, and answer it -/
def release (h : Handle) : Handle × Option (Shared Source) := ({ h with cached? := none }, h.cached?)

def footprint (h : Handle) : Nat :=
  match h.cached? with
  | some source => source.value.footprint
  | none => 0

/-- how a handle is shown in reports -/
def summary (h : Handle) : String :=
  s!"DocValues \x7b field: Field({h.field}), cached: {h.cached?.isSome} \x7d"

end Handle

end ColumnStore.Column
