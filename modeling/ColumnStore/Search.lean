/-
Binary search over a sequence that is only seen through probes.

`probe i` says how the i-th element compares with what is looked for. If the elements rise, `search` answers a place where
it stands, or the number of elements before it.
-/
import ColumnStore.Error.Basic

namespace ColumnStore

inductive Found where
  /-- the element stands at this place -/
  | here (index : Nat)
  /-- it is missing and would go before this place -/
  | before (index : Nat)
  deriving DecidableEq, Repr

/-- search between `low` and `high`, halving -/
def searchBetween (probe : Nat → Except Error Ordering) (low high : Nat) : Except Error Found :=
  if low < high then
    let middle := low + (high - low) / 2
    match probe middle with
    | .error e => .error e
    | .ok .lt => searchBetween probe (middle + 1) high
    | .ok .gt => searchBetween probe low middle
    | .ok .eq => .ok (.here middle)
  else .ok (.before low)
termination_by high - low
decreasing_by all_goals omega

/-- search among `count` elements -/
def search (probe : Nat → Except Error Ordering) (count : Nat) : Except Error Found := searchBetween probe 0 count

end ColumnStore
