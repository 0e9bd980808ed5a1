import DocStore.Bits.Word
import DocStore.Bytes
import DocStore.Fault
import DocStore.Postings.Encoding

/-!
Collecting and writing postings. Pairs may come in any order and more than once; writing sorts
the documents of each key and keeps one of each. The form that is chosen is the shorter one of
the pairs as they were collected.
-/

namespace DocStore

/-- Documents by key, below a number of documents. -/
structure PostingsBuilder where
  documents : Nat
  buckets : Array (List Nat)

namespace PostingsBuilder

/-- No pair, for keys and documents below the given numbers. -/
def empty (keys documents : Nat) : PostingsBuilder := ⟨documents, Array.replicate keys []⟩

/-- The bytes of memory that a key takes before it has a document. -/
def bucketWidth : Nat := 24

/-- No pair, where memory can be asked for so many keys: at most half of all sizes are sizes of
memory. -/
def allocate (keys documents : Nat) : Except Fault PostingsBuilder :=
  if keys * bucketWidth < sizeLimit / 2 then .ok (empty keys documents) else .error .overflow

def keys (b : PostingsBuilder) : Nat := b.buckets.size

/-- Adds a pair. Document numbers are kept in 32 bits. -/
def put (b : PostingsBuilder) (key document : Nat) : Except Fault PostingsBuilder :=
  if document < b.documents then
    if key < b.buckets.size then
      .ok { b with buckets := b.buckets.modify key (· ++ [document % 0x100000000]) }
    else
      .error .outOfRange
  else
    .error (.documentOutOfRange document)

/-- Adds pairs one after the other, up to the first that is out of range. -/
def putAll (b : PostingsBuilder) : List (Nat × Nat) → PostingsBuilder × Option Fault
  | [] => (b, none)
  | (key, document) :: rest =>
    match b.put key document with
    | .ok b => putAll b rest
    | .error fault => (b, some fault)

/-- The number of pairs, repeated ones counted each time. -/
def pairs (b : PostingsBuilder) : Nat := b.buckets.toList.flatten.length

/-- The length of the list form of the pairs as they were collected. -/
def listFormLength (b : PostingsBuilder) : Nat := 8 + (b.keys + 1) * 4 + b.pairs * 4

/-- The length of the bit form, where 64 bits hold it. -/
def bitFormLength (b : PostingsBuilder) : Except Fault Nat := do
  addSizes 12 (← mulSizes (← mulSizes b.keys (← wordsFor b.documents)) 8)

/-- The form that looks shorter; of two that look alike, the list. -/
def choice (b : PostingsBuilder) : Except Fault PostingsEncoding :=
  return if (← b.bitFormLength) < b.listFormLength then .bits else .list

/-- Sorts the documents of each key and keeps one of each. -/
def normalize (b : PostingsBuilder) : PostingsBuilder :=
  { b with buckets := b.buckets.map fun bucket => (bucket.mergeSort (· ≤ ·)).eraseReps }

/-- The list form of normalized pairs. -/
def listForm (b : PostingsBuilder) : Bytes :=
  let offsets := Bytes.offsets (b.buckets.toList.map List.length)
  Bytes.ofUInt32 PostingsEncoding.list.code ++ Bytes.ofUInt32 b.keys ++
    offsets.flatMap Bytes.ofUInt32 ++
    b.buckets.toList.flatten.flatMap Bytes.ofUInt32

/-- Word `index` of the bit vector of some documents. -/
def vectorWord (bucket : List Nat) (index : Nat) : UInt64 :=
  (bucket.filter (· / 64 = index)).foldl (fun word document => word ||| Word.single document) 0

/-- The bit form of normalized pairs, with vectors of `words` words. -/
def bitForm (b : PostingsBuilder) (words : Nat) : Bytes :=
  Bytes.ofUInt32 PostingsEncoding.bits.code ++ Bytes.ofUInt32 b.keys ++ Bytes.ofUInt32 words ++
    b.buckets.toList.flatMap fun bucket =>
      (List.range words).flatMap fun index => Bytes.ofUInt64 (vectorWord bucket index).toNat

def form (b : PostingsBuilder) : PostingsEncoding → Except Fault Bytes
  | .list => return b.normalize.listForm
  | .bits => return b.normalize.bitForm (← wordsFor b.documents)

end PostingsBuilder

end DocStore
