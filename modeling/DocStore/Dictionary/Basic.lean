import DocStore.Dictionary.Flat
import DocStore.Dictionary.StoredTrie

/-!
Dictionaries: the values of a field in ascending order, found by rank and by value. Three
stored forms answer the same questions; each starts with its kind.
-/

namespace DocStore

/-- The three stored forms of a dictionary. -/
inductive DictionaryKind where
  | fixed
  | varied
  | trie
deriving DecidableEq, Repr

namespace DictionaryKind

def code : DictionaryKind → Nat
  | fixed => 1
  | varied => 2
  | trie => 3

def ofCode? : Nat → Option DictionaryKind
  | 1 => some fixed
  | 2 => some varied
  | 3 => some trie
  | _ => none

theorem ofCode?_code (kind : DictionaryKind) : ofCode? kind.code = some kind := by
  cases kind <;> rfl

end DictionaryKind

/-- A dictionary in one of its stored forms. -/
inductive Dictionary where
  | fixed (table : FixedTable)
  | varied (table : VariableTable)
  | trie (tree : StoredTrie)

namespace Dictionary

def decode : Decoder Dictionary := do
  let position ← Decoder.position
  let tag ← Decoder.uint32 "dictionary kind"
  match DictionaryKind.ofCode? tag with
  | some .fixed => return .fixed (← FixedTable.decode)
  | some .varied => return .varied (← VariableTable.decode)
  | some .trie => return .trie (← StoredTrie.decode)
  | none => Decoder.corrupt (.unknownDictionary tag position)

def kind : Dictionary → DictionaryKind
  | fixed _ => .fixed
  | varied _ => .varied
  | trie _ => .trie

def size : Dictionary → Nat
  | fixed table => table.size
  | varied table => table.size
  | trie tree => tree.size

/-- The value of a rank, which has to be below the size. -/
def get : Dictionary → Nat → Except Fault Bytes
  | fixed table, rank => table.get rank
  | varied table, rank => table.get rank
  | trie tree, rank => tree.get rank

/-- The first rank of `[start, stop)` whose value is not below `value`, or above it if
`skipEqual`; `stop` if there is none. -/
def search (d : Dictionary) (value : Bytes) (skipEqual : Bool) (start stop : Nat) :
    Except Fault Nat :=
  match d with
  | trie tree => do
    let (below, found) ← tree.locate value
    let rank ← addSizes below (skipEqual && found).toNat
    clampSize start (max stop start) rank
  | _ =>
    partitionPoint
      (fun rank => do
        let element ← d.get rank
        return if skipEqual then element ≤ value else element < value)
      start stop

def rank? (d : Dictionary) (value : Bytes) : Except Fault (Option Nat) :=
  match d with
  | trie tree => do
    let (below, found) ← tree.locate value
    return if found then some below else none
  | _ => do
    let rank ← d.search value false 0 d.size
    if rank < d.size then
      return if (← d.get rank) = value then some rank else none
    else
      return none

/-- The lowest rank whose value is above `value`, or equal to it if `orEqual`, and that is not
past `last`. -/
def lowestAbove (d : Dictionary) (value : Bytes) (orEqual : Bool) (last : Nat) :
    Except Fault (Option Nat) :=
  if d.size = 0 then
    return none
  else do
    let last := min last (← subSizes d.size 1)
    let rank ← d.search value (!orEqual) 0 (← addSizes last 1)
    return if rank ≤ last then some rank else none

/-- The highest rank whose value is below `value`, or equal to it if `orEqual`, and that is not
before `first`. -/
def highestBelow (d : Dictionary) (value : Bytes) (orEqual : Bool) (first : Nat) :
    Except Fault (Option Nat) :=
  if d.size ≤ first then
    return none
  else do
    let rank ← d.search value orEqual first d.size
    if first < rank then return some (← subSizes rank 1) else return none

end Dictionary

end DocStore
