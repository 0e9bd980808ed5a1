import DocStore.Journal.Basic
import DocStore.Metrics
import DocStore.Pool.Arena

/-!
What all databases of a process share: the pools and contexts, the counters and the journal.
-/

namespace DocStore

/-- Whose counters they are. -/
inductive Registry where
  /-- Those of one opening. -/
  | own (number : Nat)
  /-- Those of all openings that are given this name. -/
  | shared (name : String)
deriving DecidableEq, Repr

/-- The shared parts of a process. -/
structure Engine where
  arena : Arena
  /-- The counters. Those of a registry that nobody has used yet are zero. -/
  registries : Assoc Registry Metrics
  journal : Journal

namespace Engine

/-- A process that has done nothing yet. -/
def start : Engine := ⟨.empty, ∅, .empty⟩

def modifyArena (e : Engine) (f : Arena → Arena) : Engine := { e with arena := f e.arena }

def metrics (e : Engine) (registry : Registry) : Metrics :=
  (e.registries.get? registry).getD .zero

def modifyMetrics (e : Engine) (registry : Registry) (f : Metrics → Metrics) : Engine :=
  { e with registries := e.registries.put registry (f (e.metrics registry)) }

/-- A registry that nobody has used yet. -/
def freshRegistry (e : Engine) : Registry :=
  .own (e.registries.entries.countP fun entry => entry.1 matches .own _)

def addPool (e : Engine) (pool : Pool) : Nat × Engine :=
  (e.arena.pools.size, e.modifyArena (·.addPool pool))

def modifyJournal (e : Engine) (f : Journal → Journal) : Engine :=
  { e with journal := f e.journal }

/-- Writes the line of an event. -/
def logEvent (e : Engine) (event : Event) (fields : List LogField) : Engine :=
  e.modifyJournal (·.logEvent event fields)

end Engine

end DocStore
