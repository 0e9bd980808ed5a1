import DocStore.Dictionary.Basic
import DocStore.Postings.Basic

/-!
Sort indexes: documents by the rank of their value of a field. A document without a value has
no rank and is in no group. Groups come from the postings, rank by rank, or, when few documents
are asked for, from the ranks of those documents; both list the same groups.
-/

namespace DocStore

/-- The values of a field, the documents that carry them and the rank of each document. -/
structure SortIndex where
  name : String
  dictionary : Dictionary
  postings : Postings
  ranks : View
  /-- The number of documents that are ranked or known to have no rank. -/
  documents : Nat
  /-- The number of documents without a rank. -/
  unranked : Nat

namespace SortIndex

/-- The stored rank of a document without a value. -/
def noRank : Nat := 0xFFFFFFFF

/-- Groups are gathered from the documents when that many times the documents are fewer than
the ranks. -/
def sparseFactor : Nat := 8

/-- Reads the ranks that follow a dictionary and its postings. -/
def decode (name : String) (dictionary : Dictionary) (postings : Postings) :
    Decoder SortIndex := do
  let documents ← Decoder.uint32 "sortable document count"
  let ranks ← Decoder.table documents 4 "sortable ranks"
  if postings.keys ≠ dictionary.size then
    Decoder.corrupt (.sortKeys postings.keys dictionary.size)
  let unranked ← (List.range documents).foldlM
    (fun unranked document => do
      let rank ← ranks.uint32At (document * 4)
      if rank = noRank then
        addSizes unranked 1
      else if dictionary.size ≤ rank then
        Decoder.corrupt (.rankOutOfRange document rank dictionary.size)
      else
        return unranked) 0
  return { name, dictionary, postings, ranks, documents, unranked }

def rankCount (index : SortIndex) : Nat := index.dictionary.size

def rank? (index : SortIndex) (document : Nat) : Except Fault (Option Nat) :=
  if document < index.documents then do
    let rank ← index.ranks.uint32At (document * 4)
    return if rank = noRank then none else some rank
  else
    return none

def value (index : SortIndex) (rank : Nat) : Except Fault Bytes := index.dictionary.get rank

/-- The documents of a set without a rank, ascending. -/
def unrankedOf (index : SortIndex) (docs : DocSet) : Except Fault (List Nat) :=
  if index.unranked = 0 then
    return []
  else
    docs.toList.filterM fun document => return (← index.rank? document).isNone

/-- Whether the groups of a set are gathered from its documents. -/
def gathers (index : SortIndex) (docs : DocSet) : Bool :=
  docs.cardinality * sparseFactor < index.rankCount

/-- Puts neighbours of one rank into one group. -/
def groupNeighbours : List (Nat × Nat) → List (Nat × List Nat)
  | [] => []
  | (rank, document) :: rest =>
    match groupNeighbours rest with
    | (next, members) :: groups =>
      if rank = next then (rank, document :: members) :: groups
      else (rank, [document]) :: (next, members) :: groups
    | [] => [(rank, [document])]

/-- The documents of a set in groups of one rank, ascending, read off their ranks. -/
def gather (index : SortIndex) (docs : DocSet) : Except Fault (List (Nat × List Nat)) := do
  let ranked ← docs.toList.filterMapM fun document => do
    return (← index.rank? document).map fun rank => (rank, document)
  return groupNeighbours (ranked.mergeSort fun a b => a.1 ≤ b.1)

/-- The documents of a set in groups of one rank, in a direction. Ranks without a document in
the set are left out. -/
def groups (index : SortIndex) (direction : Direction) (docs : DocSet) :
    Except Fault (List (Nat × List Nat)) :=
  if index.gathers docs then
    return direction.arrange (← index.gather docs)
  else
    index.postings.groups direction docs

end SortIndex

end DocStore
