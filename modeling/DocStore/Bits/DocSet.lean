import DocStore.Bits.ArraySet

/-!
Read-only sets of documents. Besides a stored set there are two that need no storage: no
document and every document of a given size. A query without conditions runs on the latter.
Every binary operation of a stored set takes one of these on the right, of any size.
-/

namespace DocStore

/-- A set of document numbers below a size. -/
inductive DocSet where
  /-- No number below `size`. -/
  | none (size : Nat)
  /-- Every number below `size`. -/
  | all (size : Nat)
  /-- The members of a stored set. -/
  | stored (set : ArraySet)

namespace DocSet

/-- The numbers of the set are below this. -/
def size : DocSet → Nat
  | none size | all size => size
  | stored set => set.size

def cardinality : DocSet → Nat
  | none _ => 0
  | all size => size
  | stored set => set.cardinality

def contains : DocSet → Nat → Bool
  | none _, _ => false
  | all size, index => index < size
  | stored set, index => set.contains index

/-- The lowest member that is not below `start`. -/
def next? : DocSet → Nat → Option Nat
  | none _, _ => .none
  | all size, start => if start < size then some start else .none
  | stored set, start => set.next? start

def isEmpty : DocSet → Bool
  | none _ => true
  | all size => size == 0
  | stored set => set.isEmpty

/-- Word `index` of the members. The full set computes its words from the index, and counts the
words up to it in 64-bit sizes. -/
def word : DocSet → Nat → Except Fault UInt64
  | none _, _ => .ok 0
  | all size, index => do
    let words ← wordsFor size
    let upTo ← addSizes index 1
    return if upTo < words then Word.allBits else if upTo = words then Word.lastMask size else 0
  | stored set, index => .ok (set.word index)

/-- The number of words that hold the members. -/
def words : DocSet → Except Fault Nat
  | none size | all size => wordsFor size
  | stored set => .ok set.words.size

/-- The first `count` words. -/
def firstWords (s : DocSet) (count : Nat) : Except Fault (Array UInt64) :=
  (Array.range count).mapM s.word

def toList : DocSet → List Nat
  | none _ => []
  | all size => List.range size
  | stored set => set.toList

end DocSet

namespace ArraySet

/-- Combines the words of a set with those of another, word by word. -/
def combine (f : UInt64 → UInt64 → UInt64) (s : ArraySet) (t : DocSet) : Except Fault ArraySet := do
  let others ← t.firstWords s.words.size
  return s.mapWords fun i word => f word (others.getD i 0)

def anyBit (s : ArraySet) : Bool := s.words.any (· != 0)

/-- Keeps the members of another set; also answers whether any is left. -/
def inter (s : ArraySet) (t : DocSet) : Except Fault (Bool × ArraySet) := do
  let both ← s.combine (· &&& ·) t
  return (both.anyBit, both)

/-- Adds the members of another set that are below the size. -/
def union (s : ArraySet) (t : DocSet) : Except Fault ArraySet :=
  return (← s.combine (· ||| ·) t).trim

/-- Removes the members of another set. -/
def sdiff (s : ArraySet) (t : DocSet) : Except Fault ArraySet :=
  s.combine (fun mine theirs => mine &&& ~~~ theirs) t

/-- Takes over the members of another set that are below the size. -/
def assign (s : ArraySet) (t : DocSet) : Except Fault ArraySet :=
  return (← s.combine (fun _ theirs => theirs) t).trim

end ArraySet

end DocStore
