/-
The fewest decimal digits that read back to a 64-bit float.

A float is `significand * 2 ^ power`. The reals that round to it form an interval, from halfway to the float below to halfway
to the float above, ends included if the significand is even. `shortest` goes through the decimal grids from coarse to fine
and tests the two neighbours of the float on each: the first grid with a neighbour in the interval wins, of two neighbours
the nearer. All comparisons are exact, in whole numbers.
-/
import ColumnStore.Bytes.Basic

namespace ColumnStore.Decimal

/-- a positive finite float -/
structure Binary where
  significand : Nat
  power : Int
  /-- the float below is half as far away as the one above -/
  narrow : Bool
  deriving DecidableEq, Repr

/-- what a bit pattern stands for -/
inductive Class where
  | nan
  | infinite (negative : Bool)
  | zero (negative : Bool)
  | finite (negative : Bool) (value : Binary)
  deriving DecidableEq, Repr

def fractionOf (bits : UInt64) : Nat := (bits &&& 0xfffffffffffff).toNat

def exponentOf (bits : UInt64) : Nat := (bits >>> 52 &&& 0x7ff).toNat

def isNegative (bits : UInt64) : Bool := bits >>> 63 = 1

def classify (bits : UInt64) : Class :=
  let fraction := fractionOf bits
  let exponent := exponentOf bits
  if exponent = 2047 then if fraction = 0 then .infinite (isNegative bits) else .nan
  else if exponent = 0 then
    if fraction = 0 then .zero (isNegative bits) else .finite (isNegative bits) ⟨fraction, -1074, false⟩
  else .finite (isNegative bits) ⟨(1 <<< 52) + fraction, (exponent : Int) - 1075, fraction = 0 && 1 < exponent⟩

/-- a decimal number, `digits * 10 ^ exponent` -/
structure Digits where
  digits : Nat
  exponent : Int
  deriving DecidableEq, Repr

/-- which of two equally near neighbours is taken -/
inductive Tie where
  | upper
  | even
  deriving DecidableEq, Repr

/-- compare `a * 10 ^ e` with `b * 2 ^ p` -/
def compareScaled (a : Nat) (e : Int) (b : Nat) (p : Int) : Ordering :=
  compare ((a * Nat.pow 10 e.toNat) <<< (-p).toNat) ((b <<< p.toNat) * Nat.pow 10 (-e).toNat)

namespace Binary

/-- whether a decimal lies among the reals that round to the float; its ends are counted in quarters of a unit -/
def roundsTo (x : Binary) (d : Digits) : Bool :=
  let below := compareScaled d.digits d.exponent (4 * x.significand - if x.narrow then 1 else 2) (x.power - 2)
  let above := compareScaled d.digits d.exponent (4 * x.significand + 2) (x.power - 2)
  let even := x.significand % 2 = 0
  (below = .gt || (even && below = .eq)) && (above = .lt || (even && above = .eq))

/-- the multiples of `10 ^ e` that fit below the float -/
def floor (x : Binary) (e : Int) : Nat :=
  (x.significand <<< x.power.toNat) * Nat.pow 10 (-e).toNat / (Nat.pow 10 e.toNat <<< (-x.power).toNat)

/-- of the two neighbours on a grid, the one nearer to the float -/
def nearer (x : Binary) (tie : Tie) (lower : Nat) (e : Int) : Nat :=
  match compareScaled (2 * lower + 1) e (2 * x.significand) x.power with
  | .gt => lower
  | .lt => lower + 1
  | .eq =>
    match tie with
    | .upper => lower + 1
    | .even => if lower % 2 = 0 then lower else lower + 1

/-- the neighbour on the grid of `10 ^ e` that reads back, the nearer if both do -/
def onGrid? (x : Binary) (tie : Tie) (e : Int) : Option Digits :=
  let lower := x.floor e
  match x.roundsTo ⟨lower, e⟩, x.roundsTo ⟨lower + 1, e⟩ with
  | true, true => some ⟨x.nearer tie lower e, e⟩
  | true, false => some ⟨lower, e⟩
  | false, true => some ⟨lower + 1, e⟩
  | false, false => none

/-- all digits of the float -/
def exact (x : Binary) : Digits :=
  if 0 ≤ x.power then ⟨x.significand <<< x.power.toNat, 0⟩ else ⟨x.significand * Nat.pow 5 (-x.power).toNat, x.power⟩

/-- search `grids` grids, each ten times finer than the one before -/
def search (x : Binary) (tie : Tie) : (grids : Nat) → (e : Int) → Digits
  | 0, _ => x.exact
  | grids + 1, e =>
    match x.onGrid? tie e with
    | some d => d
    | none => search x tie grids (e - 1)

/-- a power of ten that is not below the float; 1233 / 4096 is a little less than the logarithm of two to the base ten -/
def coarsest (x : Binary) : Int := ((x.significand.log2 : Int) + 1 + x.power) * 1233 / 4096 + 2

/-- the fewest digits that read back -/
def shortest (x : Binary) (tie : Tie) : Digits := x.search tie 24 x.coarsest

end Binary

end ColumnStore.Decimal
