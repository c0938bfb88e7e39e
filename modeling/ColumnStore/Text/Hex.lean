/-
Hexadecimal text: lower-case digits, padded on the left with zeros to a given width.

`parse?` reads digits of either case back, with an optional plus sign in front; a text without digits is refused, and so is
a value that is not below the limit given: no digit makes a value smaller, so it can be refused as soon as it is reached.
-/
import ColumnStore.Bytes.Basic

namespace ColumnStore.Text.Hex

def digit (n : Nat) : Char := if n < 10 then Char.ofNat (48 + n) else Char.ofNat (87 + n)

/-- the low `width` digits of `n`, most significant first -/
def digits : (width n : Nat) → List Char
  | 0, _ => []
  | width + 1, n => digits width (n / 16) ++ [digit (n % 16)]

def width (n : Nat) : Nat := n.log2 / 4 + 1

/-- `n` in at least `least` digits -/
def padded (least n : Nat) : String := String.ofList (digits (max least (width n)) n)

/-- `n` without leading zeros -/
def plain (n : Nat) : String := padded 1 n

/-- two digits per byte -/
def ofBytes (bs : Bytes) : String := String.ofList (bs.flatMap fun b => digits 2 b.toNat)

/-- the value of one digit -/
def digitValue? (c : Char) : Option Nat :=
  if '0' ≤ c ∧ c ≤ '9' then some (c.toNat - 48)
  else if 'a' ≤ c ∧ c ≤ 'f' then some (c.toNat - 87)
  else if 'A' ≤ c ∧ c ≤ 'F' then some (c.toNat - 55)
  else none

/-- digits read after the value `acc`, as long as the value stays below `limit` -/
def parseFrom (limit acc : Nat) : List Char → Option Nat
  | [] => some acc
  | c :: rest =>
    match digitValue? c with
    | none => none
    | some d =>
      let value := 16 * acc + d
      if value < limit then parseFrom limit value rest else none

/-- one or more digits of a value below `limit` -/
def parseDigits? (limit : Nat) : List Char → Option Nat
  | [] => none
  | cs => parseFrom limit 0 cs

/-- one or more digits of a value below `limit`, perhaps after a plus sign -/
def parse? (limit : Nat) (text : String) : Option Nat :=
  match text.toList with
  | '+' :: rest => parseDigits? limit rest
  | cs => parseDigits? limit cs

end ColumnStore.Text.Hex
