/-
Floats as texts.

Reports write every digit in its place, never an exponent, and no point after a whole number. JSON texts keep a point in
every number, and write an exponent where the leading digit stands far from the point.
-/
import ColumnStore.Decimal.Shortest

namespace ColumnStore.Decimal

/-- the digits of a number, without the zeros at the end, and the power of ten of the last one -/
def trim (digits : List Char) (exponent : Int) : List Char × Int :=
  let kept := (digits.reverse.dropWhile (· = '0')).reverse
  (kept, exponent + (digits.length - kept.length : Nat))

/-- decimal digits, trimmed -/
def Digits.split (d : Digits) : List Char × Int := trim (toString d.digits).toList d.exponent

def zeros (count : Nat) : List Char := List.replicate count '0'

def sign (negative : Bool) : List Char := if negative then ['-'] else []

/-- digits around the point, which stands `place` digits after the first; `ending` follows a whole number -/
def positional (digits : List Char) (place : Int) (ending : List Char) : List Char :=
  if place ≤ 0 then ['0', '.'] ++ zeros (-place).toNat ++ digits
  else if digits.length ≤ place.toNat then digits ++ zeros (place.toNat - digits.length) ++ ending
  else digits.take place.toNat ++ ['.'] ++ digits.drop place.toNat

/-- a float in a report -/
def plainText (bits : UInt64) : String :=
  match classify bits with
  | .nan => "NaN"
  | .infinite negative => String.ofList (sign negative ++ ['i', 'n', 'f'])
  | .zero negative => String.ofList (sign negative ++ ['0'])
  | .finite negative x =>
    let (digits, last) := (x.shortest .upper).split
    String.ofList (sign negative ++ positional digits (digits.length + last) [])

def exponentText (e : Int) : List Char := ['e', if e < 0 then '-' else '+'] ++ (toString e.natAbs).toList

/-- digits with a point after the first, and an exponent -/
def scientific (digits : List Char) (e : Int) : List Char :=
  (match digits with
  | first :: second :: rest => first :: '.' :: second :: rest
  | _ => digits) ++ exponentText e

/-- a finite float in a JSON text: positional if the exponent of the leading digit is from -5 to 15 -/
def jsonText (bits : UInt64) : String :=
  match classify bits with
  | .finite negative x =>
    let (digits, last) := (x.shortest .even).split
    let place := digits.length + last
    String.ofList (sign negative ++
      if -5 < place ∧ place ≤ 16 then positional digits place ['.', '0'] else scientific digits (place - 1))
  | .zero negative => String.ofList (sign negative ++ ['0', '.', '0'])
  | _ => "null"

end ColumnStore.Decimal
