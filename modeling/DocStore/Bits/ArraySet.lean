import DocStore.Bits.Word
import DocStore.View

/-!
Sets of document numbers below a fixed size, stored as 64-bit words: member `i` is bit `i % 64`
of word `i / 64`. Bits at and past the size are never set, so that words can be combined and
counted without looking at the size.
-/

namespace DocStore

/-- A set of numbers below `size`. -/
structure ArraySet where
  size : Nat
  words : Array UInt64
  words_size : words.size = wordCount size
deriving DecidableEq

namespace ArraySet

def empty (size : Nat) : ArraySet where
  size
  words := Array.replicate (wordCount size) 0
  words_size := by simp

/-- The empty set, where its size can be stored. -/
def allocate (size : Nat) : Except Fault ArraySet := do
  let _ ← wordsFor size
  return empty size

/-- Replaces every word by a function of its index and content. -/
def mapWords (s : ArraySet) (f : Nat → UInt64 → UInt64) : ArraySet where
  size := s.size
  words := s.words.mapIdx f
  words_size := by simpa using s.words_size

/-- Replaces one word, if there is one of that index. -/
def modifyWord (s : ArraySet) (index : Nat) (f : UInt64 → UInt64) : ArraySet where
  size := s.size
  words := s.words.modify index f
  words_size := by simpa using s.words_size

/-- Drops the bits of the last word that stand for no member. -/
def trim (s : ArraySet) : ArraySet :=
  s.modifyWord (wordCount s.size - 1) (· &&& Word.lastMask s.size)

def clear (s : ArraySet) : ArraySet := s.mapWords fun _ _ => 0

/-- Makes every number below the size a member. -/
def fill (s : ArraySet) : ArraySet := (s.mapWords fun _ _ => Word.allBits).trim

/-- The set of all numbers below `size`, where its size can be stored. -/
def full (size : Nat) : Except Fault ArraySet := return (← allocate size).fill

/-- Adds a number, which has to be below the size. -/
def insert (s : ArraySet) (index : Nat) : Except Fault ArraySet :=
  if index < s.size then
    .ok (s.modifyWord (index / 64) (· ||| Word.single index))
  else
    .error (.bitOutOfRange index s.size)

/-- Removes a number; one past the size is no member already. -/
def erase (s : ArraySet) (index : Nat) : ArraySet :=
  if index < s.size then s.modifyWord (index / 64) (· &&& ~~~ Word.single index) else s

/-- The set of the listed numbers below `size`, where its size can be stored. -/
def ofList (size : Nat) (indexes : List Nat) : Except Fault ArraySet := do
  let start ← allocate size
  return indexes.foldl (fun s index => (s.insert index).toOption.getD s) start

/-- The numbers below the size that are not members. -/
def complement (s : ArraySet) : ArraySet := (s.mapWords fun _ word => ~~~ word).trim

/-- Word `index`; past the end there are no members. -/
def word (s : ArraySet) (index : Nat) : UInt64 := s.words.getD index 0

def contains (s : ArraySet) (index : Nat) : Bool :=
  index < s.size && Word.hasBit (s.word (index / 64)) (index % 64)

def cardinality (s : ArraySet) : Nat := (s.words.toList.map Word.count).foldr (· + ·) 0

def toList (s : ArraySet) : List Nat :=
  (List.range s.words.size).flatMap fun i => (Word.positions (s.word i)).map (i * 64 + ·)

/-- The lowest member that the words from index `i` on hold. -/
def firstMember? : Nat → List UInt64 → Option Nat
  | _, [] => none
  | i, word :: rest =>
    match Word.lowest? word with
    | some bit => some (i * 64 + bit)
    | none => firstMember? (i + 1) rest

/-- The lowest member that is not below `start`. -/
def next? (s : ArraySet) (start : Nat) : Option Nat :=
  if start < s.size then
    match s.words.toList.drop (start / 64) with
    | [] => none
    | word :: rest => firstMember? (start / 64) ((word &&& Word.bitsFrom start) :: rest)
  else
    none

def isEmpty (s : ArraySet) : Bool := (s.next? 0).isNone

/-- Adds the members of `count` words stored one after the other from `offset`, as many as the
set has words. Words before one that cannot be read are added, and the fault is answered beside
the set. -/
def uniteStored (s : ArraySet) (stored : View) (offset count : Nat) : ArraySet × Option Fault :=
  go s (List.range (min count s.words.size))
where
  /-- Adds the words of the listed indexes. -/
  go (s : ArraySet) : List Nat → ArraySet × Option Fault
    | [] => (s.trim, none)
    | i :: rest =>
      match stored.uint64At (offset + i * 8) with
      | .ok word => go (s.modifyWord i (· ||| UInt64.ofNat word)) rest
      | .error fault => (s, some fault)

/-- One line for a reader of traces: the size and the members. -/
def describe (s : ArraySet) : String :=
  s!"ArrayBitSet(size={s.size}, bits=\x7b" ++
    ", ".intercalate (s.toList.map fun i => toString i) ++ "\x7d)"

@[simp] theorem size_mapWords (s : ArraySet) (f : Nat → UInt64 → UInt64) :
    (s.mapWords f).size = s.size := rfl

@[simp] theorem size_modifyWord (s : ArraySet) (index : Nat) (f : UInt64 → UInt64) :
    (s.modifyWord index f).size = s.size := rfl

@[simp] theorem size_clear (s : ArraySet) : s.clear.size = s.size := rfl

@[simp] theorem size_trim (s : ArraySet) : s.trim.size = s.size := rfl

end ArraySet

end DocStore
