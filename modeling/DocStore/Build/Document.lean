import DocStore.Build.Error
import DocStore.Build.Indexing
import DocStore.Value.Basic

/-!
Documents before they are stored: field values, each with the way its field is indexed, and one
payload. A field that is only filtered may have several values.
-/

namespace DocStore

/-- An encoded value of a field. -/
structure FieldEntry where
  name : String
  value : Bytes
  indexing : Indexing
deriving DecidableEq

/-- A document. -/
structure Document where
  /-- The field values in the order in which they were set. -/
  fields : List FieldEntry
  payload : Option Bytes
deriving DecidableEq

namespace Document

def empty : Document := ⟨[], none⟩

/-- What is wrong with one more value of a field. -/
def problem? (d : Document) (name : String) (indexing : Indexing) : Option FieldProblem :=
  (d.fields.find? (·.name = name)).bind fun entry =>
    if entry.indexing ≠ indexing then some .conflictingIndexing
    else if indexing.isSortable then some .secondValue
    else none

def withField (d : Document) (name : String) (value : Value) (indexing : Indexing) :
    Except BuildError Document :=
  if name.isEmpty then
    .error .emptyFieldName
  else
    match d.problem? name indexing with
    | some problem => .error (.field name problem)
    | none => .ok { d with fields := d.fields ++ [⟨name, value.encode, indexing⟩] }

/-- Sets the payload, once. -/
def withPayload (d : Document) (payload : Bytes) : Except BuildError Document :=
  if d.payload.isSome then .error .payloadSetTwice else .ok { d with payload := some payload }

/-- What is set in one call. -/
inductive Part where
  | field (name : String) (value : Value) (indexing : Indexing)
  | payload (payload : Bytes)

def withPart (d : Document) : Part → Except BuildError Document
  | .field name value indexing => d.withField name value indexing
  | .payload payload => d.withPayload payload

/-- The document of some parts, or the place of the first part that is refused. -/
def ofParts (parts : List Part) : Except (Nat × BuildError) Document :=
  parts.zipIdx.foldlM (fun d (part, place) => (d.withPart part).mapError (place, ·)) empty

def fieldCount (d : Document) : Nat := d.fields.length

def hasPayload (d : Document) : Bool := d.payload.isSome

end Document

end DocStore
