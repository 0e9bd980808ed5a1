import DocStore.Build.Document
import DocStore.Dictionary.Layout
import DocStore.Format.Segment
import DocStore.Postings.Builder

/-!
Builders: payloads and columns of the documents that were accepted. A document is checked as a
whole before any of it is recorded. A sealed builder becomes the segments of a file: first the
payloads, then the columns in the order of the names of their fields.
-/

namespace DocStore

/-- The values of one field in all documents. -/
structure Column where
  name : String
  indexing : Indexing
  /-- The length of all values, of a field whose values have to have one length. -/
  width : Option Nat
  values : ValueSet
  /-- Documents and their values, in the order in which they were added. -/
  postings : List (Nat × Bytes)
deriving DecidableEq

namespace Column

def empty (name : String) (indexing : Indexing) : Column := ⟨name, indexing, none, ∅, []⟩

def record (c : Column) (document : Nat) (value : Bytes) : Column :=
  { c with
    width := if c.indexing.hasWidth then some value.length else c.width
    values := c.values.insert value
    postings := c.postings ++ [(document, value)] }

/-- The value of a document that was recorded last. -/
def lastValue? (c : Column) (document : Nat) : Option Bytes :=
  c.postings.reverse.lookup document

/-- The stored rank of a document. -/
def rankOf (c : Column) (document : Nat) : Nat :=
  ((c.lastValue? document).bind c.values.rank?).getD SortIndex.noRank

def collect (c : Column) (documents : Nat) : Except (Failure BuildError) PostingsBuilder :=
  c.postings.foldlM
    (fun collected (document, value) =>
      match c.values.rank? value with
      | some rank => collected.put rank document
      | none => refuse (BuildError.field c.name .unknownValue))
    (PostingsBuilder.empty c.values.size documents)

/-- The stored ranks of all documents, behind their number. -/
def ranksForm (c : Column) (documents : Nat) : Bytes :=
  Bytes.ofUInt32 documents ++
    (List.range documents).flatMap fun document => Bytes.ofUInt32 (c.rankOf document)

/-- The values and their postings. Of the forms of postings the shorter one is taken, unless
one is asked for. -/
def indexForm (c : Column) (documents : Nat) (kind : DictionaryKind)
    (encoding? : Option PostingsEncoding) : Except (Failure BuildError) Bytes := do
  let collected ← c.collect documents
  let encoding ← encoding?.elim collected.choice pure
  return c.values.form kind ++ (← collected.form encoding)

def form (c : Column) (documents : Nat) : Except (Failure BuildError) Bytes := do
  return Bytes.counted (Value.textBytes c.name) ++
    (← c.indexForm documents c.indexing.dictionaryKind none) ++
    if c.indexing.isSortable then c.ranksForm documents else []

end Column

/-- The documents that were accepted so far. -/
structure Builder where
  /-- The payloads by document number. -/
  payloads : List Bytes
  /-- The columns in the order of their names. -/
  columns : List Column
deriving DecidableEq

/-- What a sealed builder stores. -/
structure SealedDatabase where
  documents : Nat
  /-- The number of indexed fields. -/
  fields : Nat
  /-- All segments. -/
  region : Bytes
deriving DecidableEq

namespace Builder

def empty : Builder := ⟨[], []⟩

def size (b : Builder) : Nat := b.payloads.length

def isEmpty (b : Builder) : Bool := b.payloads.isEmpty

/-- The most documents of a database. Numbers are stored in 32 bits, and the last one is the
mark of a missing rank. -/
def documentLimit : Nat := SortIndex.noRank

def column? (columns : List Column) (name : String) : Option Column :=
  columns.find? (·.name = name)

/-- What is wrong with a field value, where earlier values of the same document have fixed
`widths`. -/
def problem? (columns : List Column) (widths : List (String × Nat)) (entry : FieldEntry) :
    Option FieldProblem :=
  let known := column? columns entry.name
  if known.any (·.indexing ≠ entry.indexing) then
    some .conflictingIndexing
  else if entry.indexing.hasWidth then
    match known.bind (·.width) <|> widths.lookup entry.name with
    | some width =>
      if width = entry.value.length then none else some (.length width entry.value.length)
    | none => none
  else
    none

/-- The lengths that a field value fixes for the later ones of its document. -/
def widthsOf (entry : FieldEntry) : List (String × Nat) :=
  if entry.indexing.hasWidth then [(entry.name, entry.value.length)] else []

/-- Checks the field values of a document one after the other. -/
def check (columns : List Column) (widths : List (String × Nat)) :
    List FieldEntry → Except BuildError Unit
  | [] => .ok ()
  | entry :: rest =>
    match problem? columns widths entry with
    | some problem => .error (.field entry.name problem)
    | none => check columns (widths ++ widthsOf entry) rest

/-- Records a field value of a document in the column of its field. A new column gets its place
by name. -/
def record (document : Nat) (entry : FieldEntry) : List Column → List Column
  | [] => [(Column.empty entry.name entry.indexing).record document entry.value]
  | column :: rest =>
    if entry.name < column.name then
      (Column.empty entry.name entry.indexing).record document entry.value :: column :: rest
    else if entry.name = column.name then
      column.record document entry.value :: rest
    else
      column :: record document entry rest

def add (b : Builder) (d : Document) : Except BuildError (Nat × Builder) := do
  match d.payload with
  | none => throw .missingPayload
  | some payload =>
    let document := b.size
    if documentLimit ≤ document then
      throw (.tooManyDocuments documentLimit)
    check b.columns [] d.fields
    let columns := d.fields.foldl (fun columns entry => record document entry columns) b.columns
    return (document, { payloads := b.payloads ++ [payload], columns })

/-- Adds documents one after the other; those that are refused change nothing. -/
def addAll (b : Builder) (documents : List Document) : Builder :=
  documents.foldl (fun b d => ((b.add d).toOption.map (·.2)).getD b) b

def freeze (b : Builder) : Except (Failure BuildError) SealedDatabase := do
  let segments ← b.columns.mapM fun column => do
    return Segment.form column.indexing.segmentKind (← column.form b.size)
  return {
    documents := b.size
    fields := b.columns.length
    region := Segment.form .payload (Payloads.form b.payloads) ++ segments.flatten }

end Builder

end DocStore
