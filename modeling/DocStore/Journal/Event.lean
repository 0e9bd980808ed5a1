import DocStore.Severity

/-!
The events in the life of a database that are logged, each at its own severity.
-/

namespace DocStore

/-- The events. -/
inductive Event where
  | opened
  | openFailed
  | digestMismatch
  | sealed
  | written
  | queryExecuted
  | poolExhausted
  | settingsLoaded
deriving DecidableEq, Repr

namespace Event

def all : List Event :=
  [opened, openFailed, digestMismatch, sealed, written, queryExecuted, poolExhausted,
    settingsLoaded]

def name : Event → String
  | opened => "DB_OPEN"
  | openFailed => "DB_OPEN_FAILED"
  | digestMismatch => "DIGEST_MISMATCH"
  | sealed => "DB_SEALED"
  | written => "DB_WRITTEN"
  | queryExecuted => "QUERY_EXECUTED"
  | poolExhausted => "POOL_EXHAUSTED"
  | settingsLoaded => "CONFIG_LOADED"

def ofName? (text : String) : Option Event := all.find? fun event => event.name = text

/-- The severity at which an event is logged. -/
def severity : Event → Severity
  | openFailed | digestMismatch => .fatal
  | poolExhausted => .error
  | queryExecuted => .trace
  | opened | sealed | written | settingsLoaded => .info

/-- Whether an event ends an operation for good. -/
def isFatal (event : Event) : Bool := event.severity.isFatal

end Event

end DocStore
