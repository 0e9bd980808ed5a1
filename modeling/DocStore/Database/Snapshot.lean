import DocStore.Format.File
import DocStore.Format.Segment
import DocStore.Query.Source

/-!
The content of a database file. One segment holds the payloads and thereby fixes the number of
documents; the others are indexes over that many documents, at most one for each field and
purpose. A file is read as a whole or not at all.
-/

namespace DocStore

/-- The payloads and indexes of a database. -/
structure Snapshot where
  payloads : Payloads
  /-- The indexes of the fields that conditions may test. -/
  filters : List FilterIndex
  /-- The indexes of the fields that documents may be ordered by. -/
  sorts : List SortIndex

namespace Snapshot

def documents (s : Snapshot) : Nat := s.payloads.documents

/-- The index that conditions on a field are tested with. -/
def filter? (s : Snapshot) (field : String) : Option FilterIndex :=
  s.filters.find? (·.name = field)

def sort? (s : Snapshot) (field : String) : Option SortIndex := s.sorts.find? (·.name = field)

/-- The names of the fields that conditions may test, ascending. -/
def filterableFields (s : Snapshot) : List String :=
  (s.filters.map (·.name)).mergeSort fun a b => a ≤ b

/-- The names of the fields that documents may be ordered by, ascending. -/
def sortableFields (s : Snapshot) : List String :=
  (s.sorts.map (·.name)).mergeSort fun a b => a ≤ b

/-- Adds a filter index, if the field has none. -/
def addFilter (s : Snapshot) (index : FilterIndex) : Except (Failure FormatError) Snapshot :=
  if (s.filter? index.name).isSome then
    refuse (FormatError.corrupt (.duplicateIndex "filterable" index.name))
  else
    return { s with filters := s.filters ++ [index] }

/-- Adds a sort index, if the field has none. -/
def addSort (s : Snapshot) (index : SortIndex) : Except (Failure FormatError) Snapshot :=
  if (s.sort? index.name).isSome then
    refuse (FormatError.corrupt (.duplicateIndex "sortable" index.name))
  else
    return { s with sorts := s.sorts ++ [index] }

/-- Adds what a segment holds. The payloads are there already. -/
def addSegment (s : Snapshot) : Segment → Except (Failure FormatError) Snapshot
  | .payloads _ => return s
  | .filter index => s.addFilter index
  | .sort index => s.addSort index
  | .full filter sort => do (← s.addFilter filter).addSort sort

/-- The payloads of the only segment that holds some. -/
def payloadsOf (segments : List RawSegment) : Except (Failure FormatError) Payloads :=
  match segments.filter (·.kind = .payload) with
  | [] => refuse (FormatError.corrupt .missingPayload)
  | [raw] => do
    match ← raw.decode 0 with
    | .payloads payloads => return payloads
    | _ => refuse (FormatError.corrupt (.other "payload segment decoded as index"))
  | _ :: extra :: _ => refuse (FormatError.corrupt (.duplicatePayload extra.offset))

def ofSegments (segments : List RawSegment) : Except (Failure FormatError) Snapshot := do
  let payloads ← payloadsOf segments
  (segments.filter (·.kind ≠ .payload)).foldlM
    (fun s raw => do s.addSegment (← raw.decode s.documents))
    ⟨payloads, [], []⟩

def decode (file : View) (verify : Bool) : Except (Failure FormatError) Snapshot := do
  ofSegments (← RawSegment.split (← File.openRegion file verify))

/-- What queries read. -/
def source (s : Snapshot) : Source where
  documents := s.documents
  unite field dest test :=
    match s.filter? field with
    | some index => index.unite dest test
    | none => return (false, dest)
  sort? := s.sort?
  payload? := s.payloads.get?

end Snapshot

end DocStore
