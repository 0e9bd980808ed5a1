import DocStore.Journal.Event
import DocStore.Journal.Line

/-!
The journal of a process: a least severity, and the lines that were at or above it. Errors go to
one channel and the rest to the other. A scope logs the beginning and the end of one operation
and how long it took, by a clock that the process sets.
-/

namespace DocStore

/-- The lines written so far. -/
structure Journal where
  /-- Lines below this severity are not written. -/
  least : Severity
  /-- The lines on the ordinary channel, in order. -/
  output : Array String
  /-- The lines on the channel of errors, in order. -/
  errors : Array String
  /-- The time in milliseconds. -/
  clock : Nat

namespace Journal

/-- No line, and every line from `INFO` on will be written. -/
def empty : Journal := ⟨.info, #[], #[], 0⟩

def enabled (j : Journal) (severity : Severity) : Bool := j.least ≤ severity

def log (j : Journal) (severity : Severity) (event : String) (fields : List LogField) : Journal :=
  if j.enabled severity then
    let line := LogLine.render severity event fields
    if Severity.error ≤ severity then { j with errors := j.errors.push line }
    else { j with output := j.output.push line }
  else
    j

def logEvent (j : Journal) (event : Event) (fields : List LogField) : Journal :=
  j.log event.severity event.name fields

end Journal

/-- An operation under way, between its first and its last line. -/
structure LogScope where
  name : String
  /-- Fields of every line of the scope. -/
  fields : List LogField
  /-- When the operation began. -/
  began : Nat

namespace LogScope

/-- How an operation ends. -/
inductive Outcome where
  /-- It succeeded, with more fields to log. -/
  | complete (extra : List LogField)
  | failed (reason : String)
  | failedFatally (reason : String)
  /-- Nobody ended it. -/
  | abandoned

def start (j : Journal) (name : String) (fields : List LogField) : LogScope × Journal :=
  (⟨name, fields, j.clock⟩, j.log .info (name ++ "_BEGIN") fields)

def finish (scope : LogScope) (j : Journal) (outcome : Outcome) : Journal :=
  let (severity, word, extra) : Severity × String × List LogField := match outcome with
    | .complete extra => (.info, "COMPLETE", extra)
    | .failed reason => (.error, "FAILED", [("reason", reason)])
    | .failedFatally reason => (.fatal, "FAILED", [("reason", reason)])
    | .abandoned => (.warn, "FAILED", [("reason", "scope dropped while open")])
  let elapsed := ("duration_ms", toString (j.clock - scope.began))
  j.log severity (scope.name ++ "_" ++ word) (scope.fields ++ extra ++ [elapsed])

end LogScope

end DocStore
