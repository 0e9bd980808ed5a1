import DocStore.Bits.DocSet
import DocStore.Format.Decoder

/-!
Postings stored as bit vectors, one for each key, of as many words as the documents need. The
last word of a vector may hold bits at and past the number of documents; they stand for no
document, and only the test whether a key has any bit sees them.
-/

namespace DocStore

/-- A bit vector for each key. -/
structure PostingBits where
  keys : Nat
  wordsPerKey : Nat
  documentCount : Nat
  words : View

namespace PostingBits

/-- Reads the number of keys, the width of the vectors, which has to fit `documentCount`, and
the vectors. -/
def decode (documentCount : Nat) : Decoder PostingBits := do
  let keys ← Decoder.uint32 "bitset multimap keys"
  let wordsPerKey ← Decoder.uint32 "bitset multimap words per key"
  let needed ← wordsFor documentCount
  if wordsPerKey ≠ needed then
    Decoder.corrupt (.wordsPerKey wordsPerKey documentCount)
  let count ← Decoder.tableSize keys wordsPerKey "bitset multimap"
  let length ← Decoder.tableSize count 8 "bitset multimap"
  let words ← Decoder.slice length "bitset multimap words"
  return { keys, wordsPerKey, documentCount, words }

/-- Word `index` of the vector of a key. -/
def word (p : PostingBits) (key index : Nat) : Except Fault UInt64 :=
  return UInt64.ofNat (← p.words.uint64At ((key * p.wordsPerKey + index) * 8))

def vector (p : PostingBits) (key : Nat) : Except Fault (List UInt64) :=
  (List.range p.wordsPerKey).mapM (p.word key)

/-- Adds the documents of one key to a set, unless its vector has no bit at all. -/
def uniteKey (p : PostingBits) (state : Bool × ArraySet) (key : Nat) :
    Except Fault (Bool × ArraySet) := do
  let vector ← p.vector key
  if vector.any (· != 0) then
    match state.2.uniteStored p.words (key * p.wordsPerKey * 8) p.wordsPerKey with
    | (dest, none) => return (true, dest)
    | (_, some fault) => throw fault
  else
    return state

/-- The number of keys, or zero when vectors have no words, so that no key has a document. The
number of keys then is not bounded by stored bytes. -/
def occupiedKeys (p : PostingBits) : Nat := if p.wordsPerKey = 0 then 0 else p.keys

/-- Adds the documents of the keys from `first` to `last` to a set, and answers whether any of
their vectors has a bit. -/
def uniteBetween (p : PostingBits) (dest : ArraySet) (first last : Nat) :
    Except Fault (Bool × ArraySet) :=
  if p.wordsPerKey = 0 then
    return (false, dest)
  else
    (List.range' first (last + 1 - first)).foldlM p.uniteKey (false, dest)

/-- The documents of a key that are also in `filter`, ascending. -/
def documentsOf (p : PostingBits) (key : Nat) (filter : DocSet) : Except Fault (List Nat) :=
  if key < p.keys then do
    let found ← (List.range p.wordsPerKey).mapM fun index => do
      let both := (← p.word key index) &&& (← filter.word index)
      (Word.positions both).mapM fun bit => do addSizes (← mulSizes index 64) bit
    return found.flatten.filter (· < p.documentCount)
  else
    return []

end PostingBits

end DocStore
