import DocStore.Pool.Arena
import DocStore.Pool.Error

/-!
Lending scratch sets to one query. A query opens a lender on its context, which is busy from
then on, borrows and gives back sets within two quotas, and closes the lender once. Closing
writes off what is still out. A call that fails changes no counter, no cache and no context.
-/

namespace DocStore

/-- The lender of one query. -/
structure Scratch where
  /-- The number of the pool that is lent from. -/
  pool : Nat
  /-- The name of the context of the query. -/
  context : String
  /-- How many sets the query may hold. -/
  limit : Nat
  /-- How many sets the query holds. -/
  outstanding : Nat
  /-- How many sets the query has borrowed so far. -/
  borrowed : Nat
  released : Bool
deriving DecidableEq, Repr

/-- A lender together with the pools and contexts it works on. -/
structure Lender where
  scratch : Scratch
  arena : Arena

/-- A computation that borrows and gives back. -/
abbrev Lending := ExceptT (Failure PoolError) (StateM Lender)

namespace Scratch

/-- Opens a lender for a query, unless its context already runs one. -/
def openOn (a : Arena) (context : String) (pool limit : Nat) : Except PoolError (Scratch × Arena) :=
  if (a.context context).busy then
    .error .contextBusy
  else
    .ok ({ pool, context, limit, outstanding := 0, borrowed := 0, released := false },
      a.modifyContext context fun c => { c with busy := true })

/-- Closes a lender: sets that are still out are written off, and the context is free. -/
def close (s : Scratch) (a : Arena) : Scratch × Arena :=
  ({ s with released := true, outstanding := 0 },
    (a.modifyPool s.pool (·.unreserve s.outstanding)).modifyContext s.context
      fun c => { c with busy := false })

/-- Closes a lender that nobody closed. -/
def drop (s : Scratch) (a : Arena) : Arena := if s.released then a else (s.close a).2

end Scratch

namespace Lending

def modifyScratch (f : Scratch → Scratch) : Lending Unit :=
  modify fun l => { l with scratch := f l.scratch }

def modifyPool (f : Pool → Pool) : Lending Unit :=
  modify fun l => { l with arena := l.arena.modifyPool l.scratch.pool f }

def modifyContext (f : QueryContext → QueryContext) : Lending Unit :=
  modify fun l => { l with arena := l.arena.modifyContext l.scratch.context f }

def pool : Lending Pool := do
  let l ← get
  return l.arena.pool l.scratch.pool

def context : Lending QueryContext := do
  let l ← get
  return l.arena.context l.scratch.context

/-- A cleared set: one that the context keeps, else one that the pool keeps, else a new one. -/
def takeSet : Lending ArraySet := do
  let pool ← pool
  match (← context).lastOfSize? pool.size with
  | some set =>
    modifyContext (·.dropLastOfSize pool.size)
    return set.clear
  | none =>
    match pool.free with
    | set :: rest =>
      modifyPool ({ · with free := rest })
      return set.clear
    | [] => ArraySet.allocate pool.size

def borrow : Lending ArraySet := do
  let scratch := (← get).scratch
  if scratch.released then
    refuse PoolError.released
  if scratch.limit ≤ scratch.outstanding then
    refuse (PoolError.exhausted .query scratch.limit)
  let pool ← pool
  if pool.maxConcurrent ≤ pool.inFlight then
    refuse (PoolError.exhausted .process pool.maxConcurrent)
  modifyPool (·.reserve)
  modifyScratch fun s => { s with outstanding := s.outstanding + 1, borrowed := s.borrowed + 1 }
  takeSet

/-- Gives a set back. The context keeps it if it can, else the pool. -/
def giveBack (set : ArraySet) : Lending Unit := do
  let scratch := (← get).scratch
  if scratch.released then
    refuse PoolError.released
  let pool ← pool
  if set.size ≠ pool.size then
    refuse (PoolError.sizeMismatch pool.size set.size)
  if scratch.outstanding = 0 then
    refuse PoolError.notBorrowed
  let outstanding ← subSizes scratch.outstanding 1
  modifyScratch fun s => { s with outstanding }
  modifyPool (·.unreserve 1)
  match (← context).keep? set with
  | some kept => modifyContext fun _ => kept
  | none => modifyPool (·.keep set)

/-- Closes the lender, once. -/
def release : Lending Unit := do
  let l ← get
  if l.scratch.released then
    refuse PoolError.doubleRelease
  let (scratch, arena) := l.scratch.close l.arena
  set ({ scratch, arena } : Lender)

end Lending

end DocStore
