import DocStore.Format.SegmentKind

/-!
How a field is indexed: what for, and whether its values have one length. Both together decide
the kind of its segment.
-/

namespace DocStore

/-- What a field is indexed for. -/
inductive IndexUse where
  | filter
  | sort
  /-- Filtering and sorting, over one dictionary. -/
  | full
  /-- Filtering, over a radix dictionary. -/
  | trieFilter
deriving DecidableEq, Repr

/-- Whether all encoded values of a field have one length. -/
inductive ValueLength where
  | fixed
  | varied
deriving DecidableEq, Repr

/-- How a field is indexed. -/
structure Indexing where
  use : IndexUse
  length : ValueLength
deriving DecidableEq, Repr

namespace Indexing

def isFilterable (indexing : Indexing) : Bool := indexing.use ≠ .sort

/-- Whether documents may be ordered by the field, so that each has at most one value of it. -/
def isSortable (indexing : Indexing) : Bool := indexing.use = .sort || indexing.use = .full

/-- Whether the values have to have one length. A radix dictionary does not ask for it. -/
def hasWidth (indexing : Indexing) : Bool :=
  indexing.length = .fixed && indexing.use ≠ .trieFilter

def segmentKind : Indexing → SegmentKind
  | ⟨.trieFilter, _⟩ => .trieFilter
  | ⟨.filter, .fixed⟩ => .fixedFilter
  | ⟨.filter, .varied⟩ => .variedFilter
  | ⟨.sort, .fixed⟩ => .fixedSort
  | ⟨.sort, .varied⟩ => .variedSort
  | ⟨.full, .fixed⟩ => .fixedFull
  | ⟨.full, .varied⟩ => .variedFull

def dictionaryKind (indexing : Indexing) : DictionaryKind :=
  if indexing.use = .trieFilter then .trie
  else if indexing.length = .fixed then .fixed
  else .varied

theorem dictionaryKind?_segmentKind (indexing : Indexing) :
    indexing.segmentKind.dictionaryKind? = some indexing.dictionaryKind := by
  rcases indexing with ⟨_ | _ | _ | _, _ | _⟩ <;> rfl

theorem isFilter_segmentKind (indexing : Indexing) :
    indexing.segmentKind.isFilter = indexing.isFilterable := by
  rcases indexing with ⟨_ | _ | _ | _, _ | _⟩ <;> rfl

theorem isSort_segmentKind (indexing : Indexing) :
    indexing.segmentKind.isSort = indexing.isSortable := by
  rcases indexing with ⟨_ | _ | _ | _, _ | _⟩ <;> rfl

end Indexing

end DocStore
