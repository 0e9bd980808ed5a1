import DocStore.Text.Hexadecimal
import DocStore.Text.Visible

/-!
Text in double quotes for a reader: the quote, the backslash and the usual blanks have short
escapes, and every other character that is not shown as it is stands as its code point.
-/

namespace DocStore.Text

def quotedChar (c : Char) : String :=
  if c = '"' then "\\\""
  else if c = '\\' then "\\\\"
  else if c = '\n' then "\\n"
  else if c = '\r' then "\\r"
  else if c = '\t' then "\\t"
  else if c.toNat = 0 then "\\0"
  else if isVisible c then c.toString
  else "\\u\x7b" ++ Hexadecimal.digits 1 c.toNat ++ "\x7d"

def quoted (text : String) : String :=
  "\"" ++ String.join (text.toList.map quotedChar) ++ "\""

end DocStore.Text
