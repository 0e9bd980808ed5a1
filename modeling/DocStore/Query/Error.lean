import DocStore.Severity

/-!
Why a query is refused before it runs. A query that matches nothing is no error.
-/

namespace DocStore

/-- What is wrong with a condition on a field. -/
inductive ConditionProblem where
  | emptyValueList
  | invertedRange
  | emptyRange
  /-- Any other problem, in its own words. -/
  | other (reason : String)
deriving DecidableEq, Repr

def ConditionProblem.message : ConditionProblem → String
  | emptyValueList => "empty value list"
  | invertedRange => "inverted range"
  | emptyRange => "empty range"
  | other reason => reason

/-- Why a query is malformed. -/
inductive QueryError where
  | emptyFieldName
  | emptyOrderField
  | emptyGroup
  | condition (field : String) (problem : ConditionProblem)
  /-- Any other reason, in its own words. -/
  | other (reason : String)
deriving DecidableEq, Repr

namespace QueryError

def code (_ : QueryError) : String := "SEAL_QUERY_INVALID"

/-- Query errors are never fatal. -/
def severity (_ : QueryError) : Severity := .error

def field? : QueryError → Option String
  | condition field _ => some field
  | _ => none

def message : QueryError → String
  | emptyFieldName => "empty field name"
  | emptyOrderField => "empty order-by field name"
  | emptyGroup => "empty condition group"
  | condition field problem => s!"field '{field}': {problem.message}"
  | other reason => reason

def text (e : QueryError) : String := s!"[{e.severity.name}] {e.code}: {e.message}"

end QueryError

end DocStore
