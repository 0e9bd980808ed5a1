import DocStore.Severity
import DocStore.Text.Hexadecimal

/-!
Why stored bytes are not a database. Each cause is a constructor; its wording is in one
function. All of these errors are fatal: no part of a database is opened.
-/

namespace DocStore

/-- A structure that is all there but makes no sense. -/
inductive Corruption where
  /-- A table whose size 64 bits cannot hold. -/
  | tableTooLarge (table : String)
  /-- The tag in front of a dictionary is not one of the three. -/
  | unknownDictionary (tag position : Nat)
  /-- The tag in front of postings is neither of the two. -/
  | unknownPostings (tag position : Nat)
  /-- An offset table does not start at zero or goes down. -/
  | offsetOutOfOrder (table : String) (entry : Nat)
  /-- A node of a stored trie is not inside the node region. -/
  | nodeOutOfBounds (node : Nat)
  /-- The flags of a node use bits without a meaning. -/
  | nodeFlags (node flags : Nat)
  /-- A child of a node is not before it. -/
  | childNotBefore (child node : Nat)
  /-- The edge bytes of a node do not go up. -/
  | edgesOutOfOrder (node : Nat)
  /-- A node counts other values than it and its children hold, or none. -/
  | nodeCount (node count total : Nat)
  /-- The root counts other values than the dictionary has. -/
  | trieCount (count size : Nat)
  /-- Stored bit vectors have another width than the documents need. -/
  | wordsPerKey (words documents : Nat)
  /-- A posting names a document that there is not. -/
  | postingOutOfRange (document documents : Nat)
  /-- Postings and values of a sort index differ in number. -/
  | sortKeys (keys values : Nat)
  /-- A document has a rank that no value has. -/
  | rankOutOfRange (document rank ranks : Nat)
  /-- The stored name of a field is not text. -/
  | nameNotText
  /-- A segment holds another kind of dictionary than its type says. -/
  | dictionaryKind (segment name : String) (kind : Nat)
  /-- Postings and values of an index differ in number. -/
  | keyCount (name : String) (keys values : Nat)
  /-- A sort index ranks another number of documents than there are. -/
  | rankedDocuments (name : String) (ranked documents : Nat)
  /-- A segment declares a length that cannot hold its own type code. -/
  | segmentLength (position length : Nat)
  /-- Bytes of a segment that belong to no structure. -/
  | trailingBytes (segment : String) (position count : Nat)
  /-- No segment holds the payloads. -/
  | missingPayload
  /-- Two segments hold payloads. -/
  | duplicatePayload (position : Nat)
  /-- Two segments index the same field for the same purpose. -/
  | duplicateIndex (purpose name : String)
  /-- Any other reason, in its own words. -/
  | other (reason : String)
deriving DecidableEq, Repr

def Corruption.message : Corruption → String
  | tableTooLarge table => s!"{table} table too large"
  | unknownDictionary tag position => s!"unknown dictionary kind {tag} at byte {position}"
  | unknownPostings tag position => s!"unknown multimap tag {tag} at byte {position}"
  | offsetOutOfOrder table entry => s!"{table} offset {entry} out of order"
  | nodeOutOfBounds node => s!"trie node {node} out of bounds"
  | nodeFlags node flags => s!"trie node {node} has meta 0x" ++ Hexadecimal.digits 2 flags
  | childNotBefore child node => s!"trie child {child} does not precede node {node}"
  | edgesOutOfOrder node => s!"trie edges of node {node} out of order"
  | nodeCount node count total =>
    s!"trie node {node} counts {count} values, children hold {total}"
  | trieCount count size => s!"trie holds {count} values, header says {size}"
  | wordsPerKey words documents =>
    s!"bitset multimap has {words} words per key for {documents} documents"
  | postingOutOfRange document documents =>
    s!"list multimap references document {document} of {documents}"
  | sortKeys keys values => s!"sortable multimap has {keys} keys for {values} values"
  | rankOutOfRange document rank ranks => s!"document {document} has rank {rank} of {ranks}"
  | nameNotText => "index name is not UTF-8"
  | dictionaryKind segment name kind =>
    s!"{segment} segment '{name}' holds dictionary kind {kind}"
  | keyCount name keys values => s!"index '{name}' maps {keys} keys for {values} values"
  | rankedDocuments name ranked documents =>
    s!"sortable index '{name}' ranks {ranked} of {documents} documents"
  | segmentLength position length => s!"segment at byte {position} declares length {length}"
  | trailingBytes segment position count =>
    s!"{segment} segment at byte {position} has {count} trailing bytes"
  | missingPayload => "missing payload segment"
  | duplicatePayload position => s!"duplicate payload segment at offset {position}"
  | duplicateIndex purpose name => s!"duplicate {purpose} index '{name}'"
  | other reason => reason

/-- Why stored bytes cannot be opened. -/
inductive FormatError where
  | badMagic (found : Nat)
  | unsupportedVersion (found supported : Nat)
  | digestMismatch
  /-- The bytes end inside `what`, which starts at `offset`. -/
  | truncated (offset : Nat) (what : String)
  | unknownSegment (code : Nat)
  | corrupt (reason : Corruption)
deriving DecidableEq, Repr

namespace FormatError

def code : FormatError → String
  | badMagic _ => "SEAL_FORMAT_BAD_MAGIC"
  | unsupportedVersion _ _ => "SEAL_FORMAT_UNSUPPORTED_VERSION"
  | digestMismatch => "SEAL_FORMAT_DIGEST_MISMATCH"
  | truncated _ _ => "SEAL_FORMAT_TRUNCATED"
  | unknownSegment _ => "SEAL_FORMAT_UNKNOWN_SEGMENT"
  | corrupt _ => "SEAL_FORMAT_CORRUPT"

/-- Format errors are always fatal. -/
def severity (_ : FormatError) : Severity := .fatal

def message : FormatError → String
  | badMagic _ => "not a sealed database"
  | unsupportedVersion found _ => s!"format version {found} is not supported"
  | digestMismatch => "stored digest does not match content"
  | truncated _ what => what
  | unknownSegment code => s!"unknown segment type code {code}"
  | corrupt reason => reason.message

/-- What else is known, for errors that come with a number. -/
def details? : FormatError → Option String
  | badMagic found => some ("magic: 0x" ++ Hexadecimal.digits 8 found)
  | unsupportedVersion _ supported => some s!"supported: {supported}"
  | truncated offset _ => some s!"byte_offset: {offset}"
  | digestMismatch | unknownSegment _ | corrupt _ => none

def text (e : FormatError) : String :=
  s!"[{e.severity.name}] {e.code}: {e.message}" ++
    match e.details? with
    | some details => s!" ({details})"
    | none => ""

end FormatError

end DocStore
