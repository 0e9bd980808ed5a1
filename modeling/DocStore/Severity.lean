/-!
Severities, of log lines and of errors alike.
-/

namespace DocStore

/-- How serious a line or an error is, from the least. -/
inductive Severity where
  | trace
  | info
  | warn
  | error
  | fatal
deriving DecidableEq, Repr

namespace Severity

def name : Severity → String
  | trace => "TRACE"
  | info => "INFO"
  | warn => "WARN"
  | error => "ERROR"
  | fatal => "FATAL"

/-- The place in the order. -/
def rank : Severity → Nat
  | trace => 0
  | info => 1
  | warn => 2
  | error => 3
  | fatal => 4

instance : LE Severity where
  le a b := a.rank ≤ b.rank

instance (a b : Severity) : Decidable (a ≤ b) := inferInstanceAs (Decidable (a.rank ≤ b.rank))

def all : List Severity := [trace, info, warn, error, fatal]

def ofName? (text : String) : Option Severity := all.find? fun severity => severity.name = text

/-- The severity after which an operation cannot go on. -/
def isFatal (severity : Severity) : Bool := severity = fatal

theorem ofName?_name (severity : Severity) : ofName? severity.name = some severity := by
  cases severity <;> decide +kernel

end Severity

end DocStore
