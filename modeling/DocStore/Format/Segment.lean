import DocStore.Format.Payloads
import DocStore.Format.SegmentKind
import DocStore.Index.Filter
import DocStore.Index.Sort

/-!
Segments: a length, the code of a kind, and a body that exactly one structure consumes. An
index segment names its field before the dictionary, the postings and, if the field is
sortable, the ranks.
-/

namespace DocStore

/-- A segment whose body has not been read yet. -/
structure RawSegment where
  kind : SegmentKind
  /-- Where the segment starts in the region of all segments. -/
  offset : Nat
  body : View

/-- What a segment holds. -/
inductive Segment where
  | payloads (payloads : Payloads)
  | filter (index : FilterIndex)
  | sort (index : SortIndex)
  | full (filter : FilterIndex) (sort : SortIndex)

namespace Segment

def decodeName : Decoder String := do
  let stored ← Decoder.counted "index name"
  match String.fromUTF8? (ByteArray.mk stored.bytes.toArray) with
  | some name => return name
  | none => Decoder.corrupt .nameNotText

/-- Reads the body of an index segment over `documents` documents. -/
def decodeIndex (kind : SegmentKind) (documents : Nat) : Decoder Segment := do
  let name ← decodeName
  let dictionary ← Dictionary.decode
  if some dictionary.kind ≠ kind.dictionaryKind? then
    Decoder.corrupt (.dictionaryKind kind.name name dictionary.kind.code)
  let postings ← Postings.decode documents
  if postings.keys ≠ dictionary.size then
    Decoder.corrupt (.keyCount name postings.keys dictionary.size)
  let filter : FilterIndex := { name, dictionary, postings }
  if kind.isSort then
    let sort ← SortIndex.decode name dictionary postings
    if sort.documents ≠ documents then
      Decoder.corrupt (.rankedDocuments name sort.documents documents)
    return if kind.isFilter then .full filter sort else .sort sort
  else
    return .filter filter

def decodeBody (kind : SegmentKind) (documents : Nat) : Decoder Segment :=
  match kind with
  | .payload => return .payloads (← Payloads.decode)
  | kind => decodeIndex kind documents

def form (kind : SegmentKind) (body : Bytes) : Bytes :=
  Bytes.ofUInt32 (body.length + 4) ++ Bytes.ofUInt32 kind.code ++ body

end Segment

namespace RawSegment

/-- Reads the body to its end. -/
def decode (raw : RawSegment) (documents : Nat) : Except (Failure FormatError) Segment :=
  match (Segment.decodeBody raw.kind documents).runOn raw.body with
  | (.ok segment, rest) =>
    if rest.remaining = 0 then
      return segment
    else
      refuse (FormatError.corrupt (.trailingBytes raw.kind.name raw.offset rest.remaining))
  | (.error failure, _) => throw failure

/-- Reads the length, the kind and the body of the next segment. -/
def decodeNext : Decoder RawSegment := do
  let offset ← Decoder.position
  let length ← Decoder.uint32 "segment length"
  if length < 4 then
    Decoder.corrupt (.segmentLength offset length)
  let code ← Decoder.uint32 "segment type code"
  match SegmentKind.ofCode? code with
  | none => refuse (FormatError.unknownSegment code)
  | some kind =>
    let body ← Decoder.slice (← subSizes length 4) "segment body"
    return { kind, offset, body }

/-- Splits a region into segments, from the cursor to the end. Every segment takes at least
the bytes of its length, so the number of remaining bytes bounds the number of segments. -/
def splitFrom (fuel : Nat) (region : View) : Except (Failure FormatError) (List RawSegment) :=
  if region.remaining = 0 then
    return []
  else
    match fuel with
    | 0 => return []
    | fuel + 1 =>
      match decodeNext.runOn region with
      | (.ok segment, rest) => return segment :: (← splitFrom fuel rest)
      | (.error failure, _) => throw failure

def split (region : View) : Except (Failure FormatError) (List RawSegment) := do
  let region ← region.setPosition 0
  splitFrom region.remaining region

end RawSegment

end DocStore
