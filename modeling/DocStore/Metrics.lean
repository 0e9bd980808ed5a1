/-!
Counters of a database or of a group of databases. They only go up, and start again after
64 bits.
-/

namespace DocStore

/-- The counters. -/
structure Metrics where
  databasesOpened : UInt64
  openFailures : UInt64
  /-- The bytes of all databases that were opened. -/
  bytesOpened : UInt64
  /-- Queries that ran to their end, counting ones included. -/
  queriesExecuted : UInt64
  /-- Documents handed to processors by those queries. -/
  documentsReturned : UInt64
  /-- Scratch sets borrowed by those queries. -/
  setsBorrowed : UInt64
  /-- Queries that a quota ended. -/
  poolExhaustions : UInt64
deriving DecidableEq, Repr

namespace Metrics

def zero : Metrics := ⟨0, 0, 0, 0, 0, 0, 0⟩

/-- Counts a database of some bytes as opened. -/
def recordOpen (m : Metrics) (bytes : Nat) : Metrics :=
  { m with
    databasesOpened := m.databasesOpened + 1
    bytesOpened := m.bytesOpened + UInt64.ofNat bytes }

def recordOpenFailure (m : Metrics) : Metrics := { m with openFailures := m.openFailures + 1 }

def recordQuery (m : Metrics) : Metrics := { m with queriesExecuted := m.queriesExecuted + 1 }

def addReturned (m : Metrics) (count : Nat) : Metrics :=
  { m with documentsReturned := m.documentsReturned + UInt64.ofNat count }

def addBorrowed (m : Metrics) (count : Nat) : Metrics :=
  { m with setsBorrowed := m.setsBorrowed + UInt64.ofNat count }

/-- Counts a query that a quota ended. -/
def recordExhaustion (m : Metrics) : Metrics := { m with poolExhaustions := m.poolExhaustions + 1 }

/-- The counters and their names, in the order in which they are written. -/
def entries (m : Metrics) : List (String × UInt64) :=
  [("databases_opened", m.databasesOpened), ("open_failures", m.openFailures),
    ("bytes_opened", m.bytesOpened), ("queries_executed", m.queriesExecuted),
    ("documents_returned", m.documentsReturned), ("sets_borrowed", m.setsBorrowed),
    ("pool_exhaustions", m.poolExhaustions)]

def json (m : Metrics) : String :=
  "\x7b" ++ ",".intercalate (m.entries.map fun (name, value) => s!"\"{name}\":{value}") ++ "\x7d"

end Metrics

end DocStore
