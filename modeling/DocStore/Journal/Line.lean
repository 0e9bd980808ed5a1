import DocStore.Severity
import DocStore.Text.Hexadecimal

/-!
Log lines: one JSON object and a newline for each event. The event and its severity come first,
then the fields in the order of their keys; fields of one key keep their order.
-/

namespace DocStore

/-- A named value of a log line. -/
abbrev LogField := String × String

namespace LogLine

def isControl (c : Char) : Bool := c.toNat < 0x20 || (0x7F ≤ c.toNat && c.toNat < 0xA0)

def escapedChar (c : Char) : List Char :=
  if c = '"' then ['\\', '"']
  else if c = '\\' then ['\\', '\\']
  else if c = '\n' then ['\\', 'n']
  else if c = '\r' then ['\\', 'r']
  else if c = '\t' then ['\\', 't']
  else if isControl c then '\\' :: 'u' :: (Hexadecimal.digits 4 c.toNat).toList
  else [c]

def jsonText (text : String) : List Char := '"' :: text.toList.flatMap escapedChar ++ ['"']

def member (key value : String) : List Char := jsonText key ++ ':' :: jsonText value

def sortFields (fields : List LogField) : List LogField :=
  fields.mergeSort fun a b => a.1 ≤ b.1

def members (severity : Severity) (event : String) (fields : List LogField) : List LogField :=
  ("event", event) :: ("severity", severity.name) :: sortFields fields

/-- A log line with its newline. -/
def render (severity : Severity) (event : String) (fields : List LogField) : String :=
  let written := (members severity event fields).map fun (key, value) => member key value
  String.ofList ('\x7b' :: [','].intercalate written ++ ['\x7d', '\n'])

end LogLine

end DocStore
