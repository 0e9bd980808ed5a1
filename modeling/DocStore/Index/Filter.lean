import DocStore.Dictionary.Basic
import DocStore.Index.ValueTest
import DocStore.Postings.Basic

/-!
Filter indexes: the documents whose value of a field passes a test. The test is resolved to a
range of ranks in the dictionary, and the postings of that range are added to a set that may
already have members. When nothing passes, the set is the one that was given.
-/

namespace DocStore

/-- The values of a field and the documents that carry them. -/
structure FilterIndex where
  name : String
  dictionary : Dictionary
  postings : Postings

namespace FilterIndex

/-- The rank past every other: no upper bound for a search. -/
def noLimit : Nat := sizeLimit - 1

def uniteEqual (index : FilterIndex) (dest : ArraySet) (value : Bytes) :
    Except Fault (Bool × ArraySet) := do
  match ← index.dictionary.rank? value with
  | some rank => index.postings.uniteKey dest rank
  | none => return (false, dest)

def uniteOneOf (index : FilterIndex) (dest : ArraySet) (values : List Bytes) :
    Except Fault (Bool × ArraySet) :=
  values.foldlM
    (fun (matched, dest) value => do
      let (found, dest) ← index.uniteEqual dest value
      return (matched || found, dest))
    (false, dest)

/-- Adds the documents that carry a value below `value`, or equal to it if `inclusive`. -/
def uniteLess (index : FilterIndex) (dest : ArraySet) (value : Bytes) (inclusive : Bool) :
    Except Fault (Bool × ArraySet) := do
  match ← index.dictionary.highestBelow value inclusive 0 with
  | some last => index.postings.uniteUpTo dest last
  | none => return (false, dest)

/-- Adds the documents that carry a value above `value`, or equal to it if `inclusive`. -/
def uniteGreater (index : FilterIndex) (dest : ArraySet) (value : Bytes) (inclusive : Bool) :
    Except Fault (Bool × ArraySet) := do
  match ← index.dictionary.lowestAbove value inclusive noLimit with
  | some first => index.postings.uniteFrom dest first
  | none => return (false, dest)

/-- Adds the documents that carry a value between two others. The rank found for the lower one
bounds the search for the upper one. -/
def uniteBetween (index : FilterIndex) (dest : ArraySet) (low : Bytes) (lowInclusive : Bool)
    (high : Bytes) (highInclusive : Bool) : Except Fault (Bool × ArraySet) := do
  match ← index.dictionary.lowestAbove low lowInclusive noLimit with
  | none => return (false, dest)
  | some first =>
    match ← index.dictionary.highestBelow high highInclusive first with
    | none => return (false, dest)
    | some last => index.postings.uniteBetween dest first last

/-- Adds the documents that carry a value which passes a test, and answers whether there are
any. -/
def unite (index : FilterIndex) (dest : ArraySet) : ValueTest → Except Fault (Bool × ArraySet)
  | .equal value => index.uniteEqual dest value
  | .oneOf values => index.uniteOneOf dest values
  | .less value inclusive => index.uniteLess dest value inclusive
  | .greater value inclusive => index.uniteGreater dest value inclusive
  | .between low lowInclusive high highInclusive =>
    index.uniteBetween dest low lowInclusive high highInclusive

end FilterIndex

end DocStore
