import DocStore.Severity

/-!
Why a document or a builder is refused. What was refused changes nothing.
-/

namespace DocStore

/-- What is wrong with a field of a document. -/
inductive FieldProblem where
  /-- The field is indexed otherwise elsewhere. -/
  | conflictingIndexing
  /-- A second value of a sortable field. -/
  | secondValue
  /-- A value of another length than the field has. -/
  | length (expected actual : Nat)
  /-- A value that the dictionary of the field does not have. -/
  | unknownValue
  /-- Any other problem, in its own words. -/
  | other (reason : String)
deriving DecidableEq, Repr

def FieldProblem.message : FieldProblem → String
  | conflictingIndexing => "conflicting index options"
  | secondValue => "sortable field set twice"
  | length expected actual => s!"fixed length {expected}, got {actual}"
  | unknownValue => "value missing from sealed dictionary"
  | other reason => reason

/-- Why a document or a builder is refused. -/
inductive BuildError where
  | payloadSetTwice
  | missingPayload
  | emptyFieldName
  | tooManyDocuments (limit : Nat)
  | field (name : String) (problem : FieldProblem)
  /-- Any other reason, in its own words. -/
  | other (reason : String)
deriving DecidableEq, Repr

namespace BuildError

def code (_ : BuildError) : String := "SEAL_BUILD_ILLEGAL_STATE"

/-- Build errors are never fatal. -/
def severity (_ : BuildError) : Severity := .error

/-- The field that the error is about. -/
def field? : BuildError → Option String
  | field name _ => some name
  | _ => none

def message : BuildError → String
  | payloadSetTwice => "payload already set"
  | missingPayload => "document has no payload"
  | emptyFieldName => "empty field name"
  | tooManyDocuments limit => s!"database holds at most {limit} documents"
  | field name problem => s!"field '{name}': {problem.message}"
  | other reason => reason

def text (e : BuildError) : String := s!"[{e.severity.name}] {e.code}: {e.message}"

end BuildError

end DocStore
