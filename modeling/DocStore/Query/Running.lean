import DocStore.Engine
import DocStore.Pool.Scratch
import DocStore.Query.Pager

/-!
A query under way: its lender, the engine, the page that is filled, and what the caller keeps.
A processor is the caller's part. It may use the engine, also for queries of its own, but not
the lender of the query that calls it.
-/

namespace DocStore

/-- The state of a query under way, for a caller that keeps a `ρ`. -/
structure Run (ρ : Type) where
  scratch : Scratch
  engine : Engine
  pager : Pager
  own : ρ

/-- A query on a context that lends from a pool, unless the context runs one already. -/
def Run.start {ρ : Type} (e : Engine) (context : String) (pool limit : Nat) (pager : Pager)
    (own : ρ) : Except PoolError (Run ρ) := do
  let (scratch, arena) ← Scratch.openOn e.arena context pool limit
  return { scratch, engine := { e with arena }, pager, own }

/-- The engine after a query, with its lender closed. -/
def Run.close {ρ : Type} (run : Run ρ) : Engine :=
  { run.engine with arena := run.scratch.drop run.engine.arena }

/-- Receives a document and its payload, and answers whether to go on. -/
abbrev Processor (ρ : Type) := Nat → View → StateM (Engine × ρ) Bool

/-- A step of a query. It fails when a scratch set is refused. -/
abbrev Running (ρ : Type) := ExceptT (Failure PoolError) (StateM (Run ρ))

namespace Running

variable {ρ α : Type}

def lend (action : Lending α) : Running ρ α :=
  ExceptT.mk fun run =>
    let (result, lender) := action.run ⟨run.scratch, run.engine.arena⟩
    (result, { run with
      scratch := lender.scratch
      engine := { run.engine with arena := lender.arena } })

def borrow : Running ρ ArraySet := lend Lending.borrow

def giveBack (set : ArraySet) : Running ρ Unit := lend (Lending.giveBack set)

/-- Asks the pager about the next document. -/
def offer : Running ρ Admission := modifyGet fun run =>
  let (admission, pager) := run.pager.offer
  (admission, { run with pager })

def isDone : Running ρ Bool := return (← get).pager.isDone

def process (processor : Processor ρ) (document : Nat) (payload : View) : Running ρ Bool :=
  modifyGet fun run =>
    let (more, engine, own) := processor document payload (run.engine, run.own)
    (more, { run with engine, own })

end Running

end DocStore
