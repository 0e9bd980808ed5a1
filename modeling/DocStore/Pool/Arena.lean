import DocStore.Assoc
import DocStore.Bits.ArraySet

/-!
Where scratch sets wait between queries. A pool bounds how many sets of one size are out at the
same time and keeps some that came back. A context belongs to one caller: it runs one query at
a time and keeps the sets that its queries gave back last, so that the next one finds them.
An arena holds all pools and all contexts.
-/

namespace DocStore

/-- Scratch sets of one size, shared by all queries of a database. -/
structure Pool where
  size : Nat
  /-- How many sets may be out at the same time. -/
  maxConcurrent : Nat
  /-- How many sets are out. -/
  inFlight : Nat
  /-- Sets that came back, the last one first. -/
  free : List ArraySet

namespace Pool

def empty (size maxConcurrent : Nat) : Pool := ⟨size, maxConcurrent, 0, []⟩

instance : Inhabited Pool := ⟨empty 0 0⟩

def reserve (p : Pool) : Pool := { p with inFlight := p.inFlight + 1 }

/-- Counts sets as no longer out. -/
def unreserve (p : Pool) (count : Nat) : Pool := { p with inFlight := p.inFlight - count }

/-- Keeps a set for later, unless as many as may ever be out are kept already. -/
def keep (p : Pool) (set : ArraySet) : Pool :=
  if p.free.length < p.maxConcurrent then { p with free := set :: p.free } else p

end Pool

/-- The sets that a caller's queries left behind, and whether one of them is running. -/
structure QueryContext where
  busy : Bool
  /-- Sets of all sizes, the last one given back first. -/
  cache : List ArraySet

namespace QueryContext

/-- How many sets of one size a context keeps. -/
def cacheLimit : Nat := 16

def empty : QueryContext := ⟨false, []⟩

/-- The number of kept sets of a size. -/
def cached (c : QueryContext) (size : Nat) : Nat := c.cache.countP fun set => set.size = size

/-- The kept set of a size that was given back last. -/
def lastOfSize? (c : QueryContext) (size : Nat) : Option ArraySet :=
  c.cache.find? fun set => set.size = size

/-- The context without the kept set of a size that was given back last. -/
def dropLastOfSize (c : QueryContext) (size : Nat) : QueryContext :=
  { c with cache := c.cache.eraseP fun set => set.size = size }

/-- Keeps a set, if there is room for one more of its size. -/
def keep? (c : QueryContext) (set : ArraySet) : Option QueryContext :=
  if c.cached set.size < cacheLimit then some { c with cache := set :: c.cache } else none

end QueryContext

/-- All pools, by number, and all contexts, by name. A context that nobody has used yet is one
that has run nothing. -/
structure Arena where
  pools : Array Pool
  contexts : Assoc String QueryContext

namespace Arena

def empty : Arena := ⟨#[], ∅⟩

def pool (a : Arena) (id : Nat) : Pool := a.pools.getD id default

def context (a : Arena) (name : String) : QueryContext := (a.contexts.get? name).getD .empty

def modifyPool (a : Arena) (id : Nat) (f : Pool → Pool) : Arena :=
  { a with pools := a.pools.modify id f }

def modifyContext (a : Arena) (name : String) (f : QueryContext → QueryContext) : Arena :=
  { a with contexts := a.contexts.put name (f (a.context name)) }

/-- Adds a pool; its number is the number of pools before. -/
def addPool (a : Arena) (pool : Pool) : Arena := { a with pools := a.pools.push pool }

theorem context_modifyContext (a : Arena) (name other : String)
    (f : QueryContext → QueryContext) :
    (a.modifyContext name f).context other =
      if other = name then f (a.context name) else a.context other := by
  simp only [context, modifyContext, Assoc.get?_put]
  split <;> simp

end Arena

end DocStore
