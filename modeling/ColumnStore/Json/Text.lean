/-
Strings as JSON writes them: in double quotes, with the quote, the backslash and the controls below U+0020 escaped.
-/
import ColumnStore.Text.Hex

namespace ColumnStore.Json

/-- how one character is written -/
def escaped (c : Char) : List Char :=
  if c = '"' then ['\\', '"']
  else if c = '\\' then ['\\', '\\']
  else if c = '\x08' then ['\\', 'b']
  else if c = '\x0c' then ['\\', 'f']
  else if c = '\n' then ['\\', 'n']
  else if c = '\r' then ['\\', 'r']
  else if c = '\t' then ['\\', 't']
  else if c.toNat < 0x20 then ['\\', 'u'] ++ Text.Hex.digits 4 c.toNat
  else [c]

def quoted (text : String) : String := String.ofList ('"' :: text.toList.flatMap escaped ++ ['"'])

end ColumnStore.Json
