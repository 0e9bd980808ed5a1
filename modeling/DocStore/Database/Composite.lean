import DocStore.Database.Execution

/-!
Several databases queried as one. The documents of one database all come before those of the
next; orders apply within a database, the page counts through all of them.
-/

namespace DocStore

/-- Databases in order. -/
structure Composite where
  databases : List Database

namespace Composite

def size (c : Composite) : Nat := c.databases.length

def isEmpty (c : Composite) : Bool := c.databases.isEmpty

def documents (c : Composite) : Except Fault Nat :=
  (c.databases.map (·.documents)).foldlM addSizes 0

/-- Opens files one after the other, counting in one registry, up to the first that fails. -/
def openFiles (folder : Folder) (settings : Settings) (registry : Registry) :
    List String → Engine → Except (Failure StoreError) Composite × Engine
  | [], e => (.ok ⟨[]⟩, e)
  | name :: rest, e =>
    match Database.openFile folder name settings registry e with
    | (.error failure, e) => (.error failure, e)
    | (.ok db, e) =>
      match openFiles folder settings registry rest e with
      | (.error failure, e) => (.error failure, e)
      | (.ok others, e) => (.ok ⟨db :: others.databases⟩, e)

/-- Opens files, counting in a registry of their own. -/
def openAll (folder : Folder) (names : List String) (settings : Settings) (e : Engine) :
    Except (Failure StoreError) Composite × Engine :=
  openFiles folder settings e.freshRegistry names e

variable {ρ : Type}

/-- Receives a document, its payload and the number of its database. -/
abbrev Processor (ρ : Type) := Nat → DocStore.Processor ρ

/-- What a query over several databases found. -/
structure Outcome where
  /-- The number of documents that the conditions leave in the databases that were visited. -/
  matched : Nat
  /-- The databases that were not visited. -/
  unvisited : List Database
  pager : Pager

/-- Runs a query on one database after the other, until it is stopped or the page is full. -/
def stream (context : String) (q : Query) (processor : Processor ρ) (ordinal matched : Nat)
    (pager : Pager) : List Database → Engine → ρ →
      Except (Failure PoolError) Outcome × Engine × ρ
  | [], e, own => (.ok ⟨matched, [], pager⟩, e, own)
  | db :: rest, e, own =>
    match db.run context q (some (processor ordinal)) pager e own with
    | (.error failure, _, e, own) => (.error failure, e, own)
    | (.ok outcome, pager, e, own) =>
      match addSizes matched outcome.matched with
      | .error cause => (.error (.fault cause), e, own)
      | .ok matched =>
        if !outcome.completed || pager.isDone then
          (.ok ⟨matched, rest, pager⟩, e, own)
        else
          stream context q processor (ordinal + 1) matched pager rest e own

/-- Adds the documents of a query in some databases to a number. -/
def countFrom (context : String) (q : Query) (total : Nat) :
    List Database → Engine → Except (Failure PoolError) Nat × Engine
  | [], e => (.ok total, e)
  | db :: rest, e =>
    match db.count context q e with
    | (.error failure, e) => (.error failure, e)
    | (.ok found, e) =>
      match addSizes total found with
      | .error cause => (.error (.fault cause), e)
      | .ok total => countFrom context q total rest e

/-- Hands the documents of a query to a processor, and answers how many. -/
def execute (c : Composite) (context : String) (q : Query) (processor : Processor ρ) (e : Engine)
    (own : ρ) : Except (Failure PoolError) Nat × Engine × ρ :=
  let (result, e, own) :=
    stream context q processor 0 0 (.start q.skip q.limit) c.databases e own
  (result.map (·.pager.emitted), e, own)

/-- Hands the documents of a query to a processor, and answers how many there are without the
page. Databases that were not visited are counted. -/
def executeAndCount (c : Composite) (context : String) (q : Query) (processor : Processor ρ)
    (e : Engine) (own : ρ) : Except (Failure PoolError) Nat × Engine × ρ :=
  match stream context q processor 0 0 (.start q.skip q.limit) c.databases e own with
  | (.error failure, e, own) => (.error failure, e, own)
  | (.ok outcome, e, own) =>
    let (result, e) := countFrom context q outcome.matched outcome.unvisited e
    (result, e, own)

/-- Counts the documents of a query, as if there were no page. -/
def count (c : Composite) (context : String) (q : Query) (e : Engine) :
    Except (Failure PoolError) Nat × Engine :=
  countFrom context q 0 c.databases e

end Composite

end DocStore
