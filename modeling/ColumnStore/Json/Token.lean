/-
The words of a JSON text.

A text is read character by character into brackets, colons, commas, strings, numerals and the three literals. Strings keep
their escapes as 16-bit units and numerals keep their digits, so that a reader may skip a string or a number that has no
meaning as text or as a float. A bare word ends at a bracket, a separator, a quote or white space, which is where every
literal and numeral has to end.
-/
import ColumnStore.Text.Hex

namespace ColumnStore.Json

/-- one element of a string as it is written -/
inductive Piece where
  /-- a character, as it stands or by a short escape -/
  | char (c : Char)
  /-- a 16-bit unit, by its number -/
  | unit (code : Nat)
  deriving DecidableEq, Repr

abbrev Written := List Piece

/-- a number as it is written: digits before and after the point, and the power of ten, up to `exponentLimit` -/
structure Numeral where
  negative : Bool
  whole : List Nat
  fraction : List Nat
  exponent : Option Int
  deriving DecidableEq, Repr

inductive Token where
  | openArray
  | closeArray
  | openObject
  | closeObject
  | colon
  | comma
  | null
  | bool (value : Bool)
  | numeral (n : Numeral)
  | string (s : Written)
  deriving DecidableEq, Repr

/-! ## Numerals -/

/-- the digits at the start of a text, and what follows them -/
def digits (cs : List Char) : List Nat × List Char :=
  ((cs.takeWhile Char.isDigit).map fun c => c.toNat - 48, cs.dropWhile Char.isDigit)

/-- an exponent that no text is long enough to make up for -/
def exponentLimit : Nat := 0x80000000

/-- the number that the digits of an exponent stand for, up to `exponentLimit` -/
def exponentValue (ds : List Nat) : Nat := ds.foldl (fun n d => min exponentLimit (10 * n + d)) 0

def exponentSign : List Char → Int × List Char
  | '+' :: rest => (1, rest)
  | '-' :: rest => (-1, rest)
  | cs => (1, cs)

/-- the exponent at the end of a numeral, if there is one -/
def exponent? : List Char → Option (Option Int)
  | [] => some none
  | c :: rest =>
    if c = 'e' ∨ c = 'E' then
      let (sign, rest) := exponentSign rest
      match digits rest with
      | ([], _) => none
      | (ds, []) => some (some (sign * exponentValue ds))
      | _ => none
    else none

/-- the digits after a point, if there is one; a point has to be followed by a digit -/
def fraction? : List Char → Option (List Nat × List Char)
  | '.' :: rest =>
    match digits rest with
    | ([], _) => none
    | found => some found
  | cs => some ([], cs)

/-- a numeral without its sign; only a lone zero may come first -/
def unsigned? (negative : Bool) (cs : List Char) : Option Numeral :=
  match digits cs with
  | ([], _) => none
  | (0 :: _ :: _, _) => none
  | (whole, rest) => do
    let (fraction, rest) ← fraction? rest
    return { negative, whole, fraction, exponent := ← exponent? rest }

def numeral? : List Char → Option Numeral
  | '-' :: rest => unsigned? true rest
  | cs => unsigned? false cs

/-! ## Words -/

def word? (cs : List Char) : Option Token :=
  if cs = "null".toList then some .null
  else if cs = "true".toList then some (.bool true)
  else if cs = "false".toList then some (.bool false)
  else Token.numeral <$> numeral? cs

/-- a bracket or a separator -/
def mark? (c : Char) : Option Token :=
  match c with
  | '[' => some .openArray
  | ']' => some .closeArray
  | '\x7b' => some .openObject
  | '\x7d' => some .closeObject
  | ':' => some .colon
  | ',' => some .comma
  | _ => none

def isSpace (c : Char) : Bool := c = ' ' || c = '\t' || c = '\n' || c = '\r'

/-- the character of a short escape -/
def shortEscape? (c : Char) : Option Char :=
  match c with
  | '"' => some '"'
  | '\\' => some '\\'
  | '/' => some '/'
  | 'b' => some '\x08'
  | 'f' => some '\x0c'
  | 'n' => some '\n'
  | 'r' => some '\r'
  | 't' => some '\t'
  | _ => none

/-- where the scanner stands; what it has collected is reversed -/
inductive Scan where
  | outside
  | bare (word : List Char)
  | quoted (pieces : Written)
  | escape (pieces : Written)
  /-- `left` hexadecimal digits are missing -/
  | unit (pieces : Written) (left code : Nat)
  deriving DecidableEq, Repr

/-- take in a character outside of words and strings, after the tokens so far (reversed) -/
def scanOutside (tokens : List Token) (c : Char) : Scan × List Token :=
  if isSpace c then (.outside, tokens)
  else if c = '"' then (.quoted [], tokens)
  else
    match mark? c with
    | some mark => (.outside, mark :: tokens)
    | none => (.bare [c], tokens)

def scan (state : Scan) (tokens : List Token) (c : Char) : Option (Scan × List Token) :=
  match state with
  | .outside => some (scanOutside tokens c)
  | .bare word =>
    if isSpace c || c = '"' || (mark? c).isSome then
      (fun token => scanOutside (token :: tokens) c) <$> word? word.reverse
    else some (.bare (c :: word), tokens)
  | .quoted pieces =>
    if c = '"' then some (.outside, .string pieces.reverse :: tokens)
    else if c = '\\' then some (.escape pieces, tokens)
    else if c.toNat < 0x20 then none
    else some (.quoted (.char c :: pieces), tokens)
  | .escape pieces =>
    if c = 'u' then some (.unit pieces 4 0, tokens)
    else (fun c => (.quoted (.char c :: pieces), tokens)) <$> shortEscape? c
  | .unit pieces left code =>
    match Text.Hex.digitValue? c with
    | none => none
    | some d =>
      if left ≤ 1 then some (.quoted (.unit (16 * code + d) :: pieces), tokens)
      else some (.unit pieces (left - 1) (16 * code + d), tokens)

/-- the end of a text, which has to lie outside of strings -/
def finish : Scan → List Token → Option (List Token)
  | .outside, tokens => some tokens.reverse
  | .bare word, tokens => (fun token => (token :: tokens).reverse) <$> word? word.reverse
  | _, _ => none

/-- scan a text from a state on -/
def tokensFrom (state : Scan) (tokens : List Token) : List Char → Option (List Token)
  | [] => finish state tokens
  | c :: cs =>
    match scan state tokens c with
    | some (state, tokens) => tokensFrom state tokens cs
    | none => none

def tokens? (text : String) : Option (List Token) := tokensFrom .outside [] text.toList

/-- the deepest nesting of brackets -/
def depth (tokens : List Token) : Nat :=
  (tokens.foldl (fun (now, most) token =>
    match token with
    | .openArray | .openObject => (now + 1, max most (now + 1))
    | .closeArray | .closeObject => (now - 1, most)
    | _ => (now, most)) (0, 0)).2

end ColumnStore.Json
