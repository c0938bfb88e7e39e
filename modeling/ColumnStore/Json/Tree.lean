/-
JSON texts as trees.

A tree is built from the words of a text by a machine with a stack of open brackets: it takes one word at a time and knows
what may come next. Strings and numbers stay as they are written.
-/
import ColumnStore.Json.Token

namespace ColumnStore.Json

inductive Tree where
  | null
  | bool (value : Bool)
  | number (n : Numeral)
  | string (s : Written)
  | array (items : List Tree)
  | object (members : List (Written × Tree))

/-- an open bracket, with what it holds so far (reversed) -/
inductive Frame where
  | array (items : List Tree)
  /-- the value of `key` comes next -/
  | object (members : List (Written × Tree)) (key : Written)

/-- what may come next -/
inductive Expected where
  | value
  /-- an array was just opened: a value or its end -/
  | itemOrEnd
  /-- an object was just opened: a key or its end -/
  | keyOrEnd
  /-- a further key of an object, after these members -/
  | key (members : List (Written × Tree))
  /-- the colon after a key -/
  | colon (members : List (Written × Tree)) (key : Written)
  /-- a value is complete: what follows it -/
  | after (tree : Tree)

structure Machine where
  frames : List Frame
  expected : Expected

namespace Machine

def start (frames : List Frame) : Token → Option Machine
  | .null => some ⟨frames, .after .null⟩
  | .bool value => some ⟨frames, .after (.bool value)⟩
  | .numeral n => some ⟨frames, .after (.number n)⟩
  | .string s => some ⟨frames, .after (.string s)⟩
  | .openArray => some ⟨frames, .itemOrEnd⟩
  | .openObject => some ⟨frames, .keyOrEnd⟩
  | _ => none

/-- take in the word after a complete value -/
def follow (tree : Tree) : List Frame → Token → Option Machine
  | .array items :: frames, .comma => some ⟨.array (tree :: items) :: frames, .value⟩
  | .array items :: frames, .closeArray => some ⟨frames, .after (.array (tree :: items).reverse)⟩
  | .object members key :: frames, .comma => some ⟨frames, .key ((key, tree) :: members)⟩
  | .object members key :: frames, .closeObject => some ⟨frames, .after (.object ((key, tree) :: members).reverse)⟩
  | _, _ => none

def step (m : Machine) (token : Token) : Option Machine :=
  match m.expected, token with
  | .value, token => start m.frames token
  | .itemOrEnd, .closeArray => some ⟨m.frames, .after (.array [])⟩
  | .itemOrEnd, token => start (.array [] :: m.frames) token
  | .keyOrEnd, .closeObject => some ⟨m.frames, .after (.object [])⟩
  | .keyOrEnd, .string key => some ⟨m.frames, .colon [] key⟩
  | .key members, .string key => some ⟨m.frames, .colon members key⟩
  | .colon members key, .colon => some ⟨.object members key :: m.frames, .value⟩
  | .after tree, token => follow tree m.frames token
  | _, _ => none

/-- take in all words; a single complete value has to be left -/
def run (m : Machine) : List Token → Option Tree
  | [] =>
    match m with
    | ⟨[], .after tree⟩ => some tree
    | _ => none
  | token :: tokens =>
    match m.step token with
    | some m => run m tokens
    | none => none

end Machine

def Tree.ofTokens? (tokens : List Token) : Option Tree := Machine.run ⟨[], .value⟩ tokens

/-- the tree of a text, however deep -/
def Tree.parse? (text : String) : Option Tree := (tokens? text).bind Tree.ofTokens?

/-! ## Meaning of strings -/

def pairValue (high low : Nat) : Nat := 0x10000 + (high - 0xd800) * 0x400 + (low - 0xdc00)

/-- the characters of a written string; surrogates have to come in pairs -/
def characters? : Written → Option (List Char)
  | [] => some []
  | .char c :: rest => (c :: ·) <$> characters? rest
  | .unit code :: rest =>
    if 0xd800 ≤ code ∧ code < 0xdc00 then
      match rest with
      | .unit low :: rest =>
        if 0xdc00 ≤ low ∧ low < 0xe000 then (Char.ofNat (pairValue code low) :: ·) <$> characters? rest else none
      | _ => none
    else if 0xdc00 ≤ code ∧ code < 0xe000 then none
    else (Char.ofNat code :: ·) <$> characters? rest

def text? (s : Written) : Option String := String.ofList <$> characters? s

end ColumnStore.Json
