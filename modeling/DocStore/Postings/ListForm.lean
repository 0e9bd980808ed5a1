import DocStore.Bits.DocSet
import DocStore.Format.Decoder

/-!
Postings stored as document numbers: those of key `k` lie between offset `k` and offset
`k + 1`. Decoding checks the offsets and that every document exists, not that the documents of
a key ascend.
-/

namespace DocStore

/-- Document numbers by key, found through a table of offsets. -/
structure PostingList where
  keys : Nat
  offsets : View
  documents : View

namespace PostingList

/-- Reads the number of keys, the offsets and the documents, which have to be below
`documentCount`. -/
def decode (documentCount : Nat) : Decoder PostingList := do
  let keys ← Decoder.uint32 "list multimap keys"
  let entries ← Decoder.offsetCount keys "list multimap key count overflow"
  let offsets ← Decoder.table entries 4 "list multimap offsets"
  let total ← Decoder.lastOffset "list multimap" entries
    fun entry => offsets.uint32At (entry * 4)
  let length ← Decoder.tableSize total 4 "list multimap documents"
  let documents ← Decoder.slice length "list multimap documents"
  (List.range total).forM fun position => do
    let document ← documents.uint32At (position * 4)
    if documentCount ≤ document then
      Decoder.corrupt (.postingOutOfRange document documentCount)
  return { keys, offsets, documents }

/-- The documents of the keys from `first` to `last`, key after key. -/
def documentsBetween (p : PostingList) (first last : Nat) : Except Fault (List Nat) := do
  let start ← p.offsets.uint32At (first * 4)
  let stop ← p.offsets.uint32At ((last + 1) * 4)
  (List.range' start (stop - start)).mapM fun position => p.documents.uint32At (position * 4)

/-- Adds the documents of the keys from `first` to `last` to a set, and answers whether there
are any. -/
def uniteBetween (p : PostingList) (dest : ArraySet) (first last : Nat) :
    Except Fault (Bool × ArraySet) := do
  let documents ← p.documentsBetween first last
  let dest ← documents.foldlM ArraySet.insert dest
  return (!documents.isEmpty, dest)

/-- The documents of a key that are also in `filter`, in stored order. -/
def documentsOf (p : PostingList) (key : Nat) (filter : DocSet) : Except Fault (List Nat) :=
  if key < p.keys then
    return (← p.documentsBetween key key).filter filter.contains
  else
    return []

end PostingList

end DocStore
