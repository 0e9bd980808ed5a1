import DocStore.Bits.DocSet
import DocStore.Query.Condition
import DocStore.Query.Running
import DocStore.Query.Source

/-!
Selecting documents. A condition adds its documents to a set that may already have members, and
answers whether it has any. Conjunctions narrow a borrowed set until it is empty, negations turn
one around, disjunctions add to the same set; every borrowed set is given back, but for the one
that holds the result.
-/

namespace DocStore

variable {ρ : Type}

mutual

/-- Adds the documents for which a condition holds, and answers whether there are any. -/
def Condition.unite (source : Source) : Condition → ArraySet → Running ρ (Bool × ArraySet)
  | .test field valueTest, dest => source.unite field dest valueTest
  | .all [], dest => return (false, dest)
  | .all (first :: rest), dest => do
    let kept ← Running.borrow
    let found ← first.unite source kept
    let (alive, kept) ← Condition.narrow source rest found
    let dest ← if alive then dest.union (.stored kept) else pure dest
    Running.giveBack kept
    return (alive, dest)
  | .any conditions, dest => Condition.uniteAny source conditions (false, dest)
  | .not condition, dest => do
    let inner ← Running.borrow
    let (_, inner) ← condition.unite source inner
    let others := inner.complement
    let found := !others.isEmpty
    let dest ← if found then dest.union (.stored others) else pure dest
    Running.giveBack others
    return (found, dest)

/-- Keeps of a set the documents for which all conditions hold, up to the first condition that
leaves none. The flag tells whether the set has a member. -/
def Condition.narrow (source : Source) :
    List Condition → Bool × ArraySet → Running ρ (Bool × ArraySet)
  | [], state => return state
  | condition :: rest, (alive, kept) =>
    if alive then do
      let matched ← Running.borrow
      let (found, matched) ← condition.unite source matched
      let state ← if found then kept.inter (.stored matched) else pure (false, kept)
      Running.giveBack matched
      Condition.narrow source rest state
    else
      return (alive, kept)

/-- Adds the documents for which some condition holds. The flag tells whether there was one
already. -/
def Condition.uniteAny (source : Source) :
    List Condition → Bool × ArraySet → Running ρ (Bool × ArraySet)
  | [], state => return state
  | condition :: rest, (found, dest) => do
    let (more, dest) ← condition.unite source dest
    Condition.uniteAny source rest (found || more, dest)

end

/-- The documents that the conditions of a query leave. -/
inductive Selection where
  /-- There is no condition, and every document is left. -/
  | all (documents : Nat)
  /-- The borrowed set of the documents that are left. -/
  | matched (set : ArraySet)
  /-- No document is left. -/
  | nothing (documents : Nat)

namespace Selection

def docs : Selection → DocSet
  | all documents => .all documents
  | matched set => .stored set
  | nothing documents => .none documents

def cardinality (s : Selection) : Nat := s.docs.cardinality

def ofConditions (source : Source) : List Condition → Running ρ Selection
  | [] => return all source.documents
  | first :: rest => do
    let kept ← Running.borrow
    let found ← first.unite source kept
    let (alive, kept) ← Condition.narrow source rest found
    if alive then
      return matched kept
    else
      Running.giveBack kept
      return nothing source.documents

def recycle : Selection → Running ρ Unit
  | matched set => Running.giveBack set
  | all _ | nothing _ => return

end Selection

end DocStore
