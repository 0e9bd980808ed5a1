import DocStore.Dictionary.Basic

/-!
The closed list of segment kinds: what each holds and under which code it is stored.
-/

namespace DocStore

/-- The kinds of segments. -/
inductive SegmentKind where
  | payload
  | fixedFilter
  | variedFilter
  | fixedSort
  | variedSort
  | fixedFull
  | variedFull
  | trieFilter
deriving DecidableEq, Repr

namespace SegmentKind

def all : List SegmentKind :=
  [payload, fixedFilter, variedFilter, fixedSort, variedSort, fixedFull, variedFull, trieFilter]

def code : SegmentKind → Nat
  | payload => 1
  | fixedFilter => 2
  | variedFilter => 3
  | fixedSort => 4
  | variedSort => 5
  | fixedFull => 6
  | variedFull => 7
  | trieFilter => 8

def ofCode? (code : Nat) : Option SegmentKind := all.find? fun kind => kind.code = code

def name : SegmentKind → String
  | payload => "payload"
  | fixedFilter => "fixed_filter"
  | variedFilter => "variable_filter"
  | fixedSort => "fixed_sortable"
  | variedSort => "variable_sortable"
  | fixedFull => "fixed_full"
  | variedFull => "variable_full"
  | trieFilter => "trie_filter"

/-- The form of the dictionary that an index segment has to hold. -/
def dictionaryKind? : SegmentKind → Option DictionaryKind
  | payload => none
  | fixedFilter | fixedSort | fixedFull => some .fixed
  | variedFilter | variedSort | variedFull => some .varied
  | trieFilter => some .trie

def isFilter : SegmentKind → Bool
  | fixedFilter | variedFilter | trieFilter | fixedFull | variedFull => true
  | payload | fixedSort | variedSort => false

def isSort : SegmentKind → Bool
  | fixedSort | variedSort | fixedFull | variedFull => true
  | payload | fixedFilter | variedFilter | trieFilter => false

theorem ofCode?_code (kind : SegmentKind) : ofCode? kind.code = some kind := by
  cases kind <;> decide +kernel

end SegmentKind

end DocStore
