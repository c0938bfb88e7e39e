/-
UTF-8 with exact positions of faults.

`head` looks at the first bytes of a text: a scalar and its length, a wrong sequence and the length of its bad start, or a
sequence that the end of the input cuts off. `decode` refuses a text at its first fault, `decodeLossy` puts U+FFFD for it.
-/
import ColumnStore.Bytes.Basic

namespace ColumnStore.Text.Utf8

inductive Head where
  /-- a scalar in `length` bytes -/
  | scalar (c : Char) (length : Nat)
  /-- no scalar can start with the first `length` bytes -/
  | wrong (length : Nat)
  /-- the input ends inside a sequence -/
  | cut
  deriving DecidableEq, Repr

/-- whether a byte continues a sequence -/
def continues (b : UInt8) : Bool := 0x80 ≤ b && b ≤ 0xBF

/-- whether a second byte may follow a given first one: no overlong forms, no surrogates, nothing past U+10FFFF -/
def second (first b : UInt8) : Bool :=
  if first = 0xE0 then 0xA0 ≤ b && b ≤ 0xBF
  else if first = 0xED then 0x80 ≤ b && b ≤ 0x9F
  else if first = 0xF0 then 0x90 ≤ b && b ≤ 0xBF
  else if first = 0xF4 then 0x80 ≤ b && b ≤ 0x8F
  else continues b

/-- the payload of a continuation byte -/
def low (b : UInt8) : Nat := b.toNat % 64

/-- classify the start of `first :: rest` -/
def head (first : UInt8) (rest : Bytes) : Head :=
  if first < 0x80 then .scalar (Char.ofNat first.toNat) 1
  else if 0xC2 ≤ first && first ≤ 0xDF then
    match rest with
    | [] => .cut
    | b :: _ => if continues b then .scalar (Char.ofNat (first.toNat % 32 * 64 + low b)) 2 else .wrong 1
  else if 0xE0 ≤ first && first ≤ 0xEF then
    match rest with
    | [] => .cut
    | b :: rest =>
      if second first b then
        match rest with
        | [] => .cut
        | c :: _ =>
          if continues c then .scalar (Char.ofNat ((first.toNat % 16 * 64 + low b) * 64 + low c)) 3 else .wrong 2
      else .wrong 1
  else if 0xF0 ≤ first && first ≤ 0xF4 then
    match rest with
    | [] => .cut
    | b :: rest =>
      if second first b then
        match rest with
        | [] => .cut
        | c :: rest =>
          if continues c then
            match rest with
            | [] => .cut
            | d :: _ =>
              if continues d then
                .scalar (Char.ofNat (((first.toNat % 8 * 64 + low b) * 64 + low c) * 64 + low d)) 4
              else .wrong 3
          else .wrong 2
      else .wrong 1
  else .wrong 1

/-- the first fault of a text: how many bytes are bad, or that the end is missing, and where -/
inductive Fault where
  | wrong (length index : Nat)
  | cut (index : Nat)
  deriving DecidableEq, Repr

/-- the scalars from byte `index` on -/
def decodeFrom (index : Nat) : Bytes → Except Fault (List Char)
  | [] => .ok []
  | first :: rest =>
    match head first rest with
    | .scalar c length =>
      match decodeFrom (index + length) (rest.drop (length - 1)) with
      | .ok cs => .ok (c :: cs)
      | .error fault => .error fault
    | .wrong length => .error (.wrong length index)
    | .cut => .error (.cut index)
termination_by bs => bs.length
decreasing_by simp only [List.length_drop, List.length_cons]; omega

/-- the text of a byte string, or its first fault -/
def decode (bs : Bytes) : Except Fault String :=
  match decodeFrom 0 bs with
  | .ok cs => .ok (String.ofList cs)
  | .error fault => .error fault

/-- the scalars, one U+FFFD for each bad or cut-off sequence -/
def lossyScalars : Bytes → List Char
  | [] => []
  | first :: rest =>
    match head first rest with
    | .scalar c length => c :: lossyScalars (rest.drop (length - 1))
    | .wrong length => '\uFFFD' :: lossyScalars (rest.drop (length - 1))
    | .cut => ['\uFFFD']
termination_by bs => bs.length
decreasing_by all_goals simp only [List.length_drop, List.length_cons]; omega

/-- the text of a byte string, faults replaced -/
def decodeLossy (bs : Bytes) : String := String.ofList (lossyScalars bs)

def Fault.message : Fault → String
  | .wrong length index => s!"invalid utf-8 sequence of {length} bytes from index {index}"
  | .cut index => s!"incomplete utf-8 byte sequence from index {index}"

end ColumnStore.Text.Utf8
