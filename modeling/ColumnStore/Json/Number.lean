/-
The number that a numeral stands for.

A whole number of up to 64 bits is kept as it is, a negative one if it fits a signed word; everything else becomes a float.
A float is read from its leading digits, as many as fit a word, and one multiplication or division by a power of ten: quick,
and for long numerals not always the nearest float. A numeral beyond all floats has no meaning; minus zero is a float.
-/
import ColumnStore.Decimal.Text
import ColumnStore.Json.Token

namespace ColumnStore.Json

/-- the number of a numeral; a float is given by its bit pattern -/
inductive Number where
  | whole (n : UInt64)
  | negative (n : Int64)
  | float (bits : UInt64)
  deriving DecidableEq, Repr

/-- the leading digits that fit a word, as a number, and those that do not -/
def leading (n : Nat) : List Nat → Nat × List Nat
  | [] => (n, [])
  | d :: ds => if 10 * n + d < UInt64.size then leading (10 * n + d) ds else (n, d :: ds)

def maxPower : Nat := 308

def powerOfTen (e : Nat) : Float := Float.ofScientific 1 false e

/-- a float divided by `10 ^ e`, in steps that can be done -/
def divide (f : Float) (e : Nat) : Float :=
  if e ≤ maxPower then f / powerOfTen e
  else if f == 0 then f
  else divide (f / powerOfTen maxPower) (e - maxPower)
termination_by e
decreasing_by simp only [maxPower] at *; omega

/-- `n * 10 ^ e` as a float, if there is one -/
def scaled? (n : Nat) (e : Int) : Option Float :=
  let f := (UInt64.ofNat n).toFloat
  if e < 0 then some (divide f e.natAbs)
  else if e.toNat ≤ maxPower then
    let product := f * powerOfTen e.toNat
    if product.isInf then none else some product
  else if f == 0 then some f
  else none

namespace Numeral

/-- the leading digits as a number, and the power of ten that they are scaled by -/
def scale (n : Numeral) : Nat × Int :=
  let (word, rest) := leading 0 n.whole
  match rest with
  | [] =>
    let (word, rest) := leading word n.fraction
    (word, n.exponent.getD 0 - (n.fraction.length - rest.length : Nat))
  | _ =>
    let (word, kept) := leading word n.fraction
    (word, n.exponent.getD 0 + rest.length - (n.fraction.length - kept.length : Nat))

def float? (n : Numeral) : Option Number :=
  let (word, e) := n.scale
  (fun f : Float => Number.float (if n.negative then -f else f).toBits) <$> scaled? word e

def number? (n : Numeral) : Option Number :=
  match leading 0 n.whole, n.fraction, n.exponent with
  | (whole, []), [], none =>
    if !n.negative then some (.whole (UInt64.ofNat whole))
    else if 0 < whole ∧ whole ≤ 0x8000000000000000 then some (.negative (Int64.ofInt (-whole)))
    else n.float?
  | _, _, _ => n.float?

end Numeral

namespace Number

def int? : Number → Option Int64
  | whole n => if n.toNat < 0x8000000000000000 then some n.toInt64 else none
  | negative n => some n
  | float _ => none

/-- the number as a float, by its bit pattern -/
def floatBits : Number → UInt64
  | whole n => n.toFloat.toBits
  | negative n => n.toFloat.toBits
  | float bits => bits

def render : Number → String
  | whole n => toString n
  | negative n => toString n
  | float bits => Decimal.jsonText bits

end Number

end ColumnStore.Json
