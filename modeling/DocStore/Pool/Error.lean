import DocStore.Severity

/-!
Why a scratch set was not lent or not taken back. All of these errors are fatal to the query.
-/

namespace DocStore

/-- The limits on scratch sets. -/
inductive Quota where
  /-- The sets that one query holds. -/
  | query
  /-- The sets that all queries of a database hold. -/
  | process
  /-- Any other limit, by its name. -/
  | other (name : String)
deriving DecidableEq, Repr

def Quota.name : Quota → String
  | query => "query"
  | process => "process"
  | other name => name

/-- Why lending failed. -/
inductive PoolError where
  | exhausted (quota : Quota) (limit : Nat)
  /-- The lender was closed before. -/
  | released
  /-- The lender is closed a second time. -/
  | doubleRelease
  /-- Another query runs on the context. -/
  | contextBusy
  | sizeMismatch (expected actual : Nat)
  /-- A set is given back though none is out. -/
  | notBorrowed
deriving DecidableEq, Repr

namespace PoolError

def code : PoolError → String
  | exhausted _ _ => "SEAL_POOL_EXHAUSTED"
  | released => "SEAL_POOL_RELEASED"
  | doubleRelease => "SEAL_POOL_DOUBLE_RELEASE"
  | contextBusy => "SEAL_POOL_CONTEXT_BUSY"
  | sizeMismatch _ _ => "SEAL_POOL_SIZE_MISMATCH"
  | notBorrowed => "SEAL_POOL_NOT_BORROWED"

/-- Pool errors are always fatal. -/
def severity (_ : PoolError) : Severity := .fatal

def message : PoolError → String
  | exhausted quota limit => s!"{quota.name} quota of {limit} scratch sets reached"
  | released => "scratch pool used after release"
  | doubleRelease => "scratch pool released twice"
  | contextBusy => "query context already runs a query; use a second context"
  | sizeMismatch expected actual => s!"expected bit set of size {expected}, got {actual}"
  | notBorrowed => "bit set given back but none is outstanding"

def text (e : PoolError) : String := s!"[{e.severity.name}] {e.code}: {e.message}"

def isExhausted : PoolError → Bool
  | exhausted _ _ => true
  | _ => false

end PoolError

end DocStore
