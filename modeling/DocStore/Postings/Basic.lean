import DocStore.Direction
import DocStore.Postings.BitForm
import DocStore.Postings.Encoding
import DocStore.Postings.ListForm

/-!
Postings: which documents carry which value of a field. Values are keys, numbered by rank. Two
stored forms answer the same questions. A lookup adds documents to a set that may already have
members; when it answers that nothing matched, the set is the one it was given.
-/

namespace DocStore

/-- Postings in one of their stored forms. -/
inductive Postings where
  | list (postings : PostingList)
  | bits (postings : PostingBits)

namespace Postings

/-- Reads a tag and the form it stands for, over `documents` documents. -/
def decode (documents : Nat) : Decoder Postings := do
  let position ← Decoder.position
  let tag ← Decoder.uint32 "multimap tag"
  match PostingsEncoding.ofCode? tag with
  | some .list => return .list (← PostingList.decode documents)
  | some .bits => return .bits (← PostingBits.decode documents)
  | none => Decoder.corrupt (.unknownPostings tag position)

def encoding : Postings → PostingsEncoding
  | list _ => .list
  | bits _ => .bits

def keys : Postings → Nat
  | list postings => postings.keys
  | bits postings => postings.keys

/-- The keys from the first on among which are all that have documents. -/
def occupiedKeys : Postings → Nat
  | list postings => postings.keys
  | bits postings => postings.occupiedKeys

/-- Adds the documents of the keys from `first` to `last`, as far as there are such keys. -/
def uniteBetween (p : Postings) (dest : ArraySet) (first last : Nat) :
    Except Fault (Bool × ArraySet) :=
  if p.keys = 0 ∨ last < first ∨ p.keys ≤ first then
    return (false, dest)
  else do
    let last := min last (← subSizes p.keys 1)
    match p with
    | list postings => postings.uniteBetween dest first last
    | bits postings => postings.uniteBetween dest first last

def uniteKey (p : Postings) (dest : ArraySet) (key : Nat) : Except Fault (Bool × ArraySet) :=
  p.uniteBetween dest key key

/-- Adds the documents of the keys from `first` on. -/
def uniteFrom (p : Postings) (dest : ArraySet) (first : Nat) : Except Fault (Bool × ArraySet) :=
  match p.keys with
  | 0 => return (false, dest)
  | last + 1 => p.uniteBetween dest first last

/-- Adds the documents of the keys up to `last`. -/
def uniteUpTo (p : Postings) (dest : ArraySet) (last : Nat) : Except Fault (Bool × ArraySet) :=
  p.uniteBetween dest 0 last

/-- The documents of a key that are also in `filter`. -/
def documentsOf (p : Postings) (key : Nat) (filter : DocSet) : Except Fault (List Nat) :=
  match p with
  | list postings => postings.documentsOf key filter
  | bits postings => postings.documentsOf key filter

/-- The keys in a direction, each with its documents in `filter`; keys without one are left
out. -/
def groups (p : Postings) (direction : Direction) (filter : DocSet) :
    Except Fault (List (Nat × List Nat)) := do
  let groups ← (direction.arrange (List.range p.occupiedKeys)).mapM fun key => do
    return (key, ← p.documentsOf key filter)
  return groups.filter fun group => !group.2.isEmpty

end Postings

end DocStore
