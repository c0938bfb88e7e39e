/-
Quoted texts in messages.

A text stands in double quotes; quote, backslash and the usual controls are written with a backslash, hidden characters as
`\u` with their number in braces, and everything else as it is.
-/
import ColumnStore.Text.Hex
import ColumnStore.Text.Hidden

namespace ColumnStore.Text

def quoteChar (c : Char) : List Char :=
  if c = '"' then ['\\', '"']
  else if c = '\\' then ['\\', '\\']
  else if c = '\n' then ['\\', 'n']
  else if c = '\r' then ['\\', 'r']
  else if c = '\t' then ['\\', 't']
  else if c = '\x00' then ['\\', '0']
  else if c.toNat < 0x20 || c.toNat = 0x7f || (0x80 ≤ c.toNat && Hidden.contains c.toNat) then
    ['\\', 'u', '\x7b'] ++ (Hex.plain c.toNat).toList ++ ['\x7d']
  else [c]

/-- a text as messages quote it -/
def quoted (text : String) : String := String.ofList ('"' :: text.toList.flatMap quoteChar ++ ['"'])

end ColumnStore.Text
