import DocStore.Database.Basic
import DocStore.Query.Emission

/-!
Running queries on a database. A query holds its context while it runs and leaves it free
whatever happens; scratch sets that it has not given back are written off. Only a query that
ends well is counted and logged, and a quota that refuses a set is counted and logged too.
-/

namespace DocStore

namespace Database

/-- What a query found. -/
structure Outcome where
  /-- The number of documents that the conditions leave. -/
  matched : Nat
  /-- Whether neither the page nor the processor ended the query. -/
  completed : Bool

variable {ρ : Type}

/-- Counts and logs a refusal of a quota. -/
def reportRefusal (db : Database) (error : PoolError) (e : Engine) : Engine :=
  if error.isExhausted then
    (e.modifyMetrics db.registry (·.recordExhaustion)).logEvent .poolExhausted
      [("reason", error.text)]
  else
    e

/-- Counts and logs a query that ended well. -/
def reportExecuted (db : Database) (matched returned borrowed duration : Nat) (e : Engine) :
    Engine :=
  (e.modifyMetrics db.registry fun m =>
    (m.recordQuery.addReturned returned).addBorrowed borrowed).logEvent .queryExecuted
      [("matched", toString matched), ("returned", toString returned),
        ("sets_borrowed", toString borrowed), ("duration_ms", toString duration)]

/-- The steps of a query. Without a processor the documents are only selected. -/
def steps (source : Source) (q : Query) (processor? : Option (Processor ρ)) :
    Running ρ Outcome := do
  let selection ← Selection.ofConditions source q.conditions
  let matched := selection.cardinality
  let completed ← match processor? with
    | some processor => Emission.emit source processor q.orders selection
    | none => pure true
  selection.recycle
  return { matched, completed }

/-- Runs a query on a context and fills a page. Answers the page and what the caller keeps as
they are in the end. -/
def run (db : Database) (context : String) (q : Query) (processor? : Option (Processor ρ))
    (pager : Pager) (e : Engine) (own : ρ) :
    Except (Failure PoolError) Outcome × Pager × Engine × ρ :=
  match Run.start e context db.pool db.setsPerQuery pager own with
  | .error error => (.error (.refused error), pager, db.reportRefusal error e, own)
  | .ok run =>
    let (result, run) := (steps db.snapshot.source q processor?).run run
    let ended := run.close
    match result with
    | .ok outcome =>
      match subSizes run.pager.emitted pager.emitted with
      | .ok returned =>
        (.ok outcome, run.pager, db.reportExecuted outcome.matched returned run.scratch.borrowed
          (ended.journal.clock - e.journal.clock) ended, run.own)
      | .error cause => (.error (.fault cause), run.pager, ended, run.own)
    | .error (.refused error) =>
      (.error (.refused error), run.pager, db.reportRefusal error ended, run.own)
    | .error (.fault cause) => (.error (.fault cause), run.pager, ended, run.own)

/-- Hands the documents of a query to a processor, and answers how many. -/
def execute (db : Database) (context : String) (q : Query) (processor : Processor ρ) (e : Engine)
    (own : ρ) : Except (Failure PoolError) Nat × Engine × ρ :=
  let (result, pager, e, own) :=
    db.run context q (some processor) (.start q.skip q.limit) e own
  (result.map fun _ => pager.emitted, e, own)

/-- Hands the documents of a query to a processor, and answers how many there are without the
page. -/
def executeAndCount (db : Database) (context : String) (q : Query) (processor : Processor ρ)
    (e : Engine) (own : ρ) : Except (Failure PoolError) Nat × Engine × ρ :=
  let (result, _, e, own) := db.run context q (some processor) (.start q.skip q.limit) e own
  (result.map (·.matched), e, own)

/-- Counts the documents of a query, as if there were no page. -/
def count (db : Database) (context : String) (q : Query) (e : Engine) :
    Except (Failure PoolError) Nat × Engine :=
  let (result, _, e, _) := db.run context q none (.start 0 none) e ()
  (result.map (·.matched), e)

end Database

end DocStore
