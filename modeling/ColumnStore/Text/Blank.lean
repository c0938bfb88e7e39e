/-
White space of texts: the characters with the Unicode property `White_Space`.
-/
namespace ColumnStore.Text.Blank

/-- the code points of white space, as inclusive ranges -/
def ranges : List (Nat × Nat) :=
  [(0x9, 0xd), (0x20, 0x20), (0x85, 0x85), (0xa0, 0xa0), (0x1680, 0x1680), (0x2000, 0x200a), (0x2028, 0x2029),
    (0x202f, 0x202f), (0x205f, 0x205f), (0x3000, 0x3000)]

def isBlank (c : Char) : Bool := ranges.any fun r => r.1 ≤ c.toNat && c.toNat ≤ r.2

/-- whether a line has nothing but white space -/
def isBlankLine (line : String) : Bool := line.toList.all isBlank

end ColumnStore.Text.Blank
