import DocStore.Bytes

/-!
Radix trees over byte strings. A tree holds the values below it once their common start is
taken off: a label shared by all of them, whether a value ends there, and one branch for each
byte that follows. `ofSorted` builds the tree of an ascending list, `toList` reads the values
back in ascending order.
-/

namespace DocStore

mutual

/-- A radix tree: the common start of its values, whether that start is a value itself, and
the values that go on. -/
inductive Trie where
  | node (label : Bytes) (hasValue : Bool) (branches : Branches)

/-- The subtrees of a node, by the byte that leads to them. -/
inductive Branches where
  | nil
  | cons (byte : UInt8) (child : Trie) (rest : Branches)

end

namespace Bytes

/-- The longest common start of two byte strings. -/
def commonStart : Bytes → Bytes → Bytes
  | a :: as, b :: bs => if a = b then a :: commonStart as bs else []
  | _, _ => []

end Bytes

namespace Trie

/-- Splits off the values that start with a byte; the rest starts at the first that does not. -/
def takeBranch (byte : UInt8) : List Bytes → List Bytes × List Bytes
  | (first :: tail) :: values =>
    if first = byte then
      let (same, others) := takeBranch byte values
      (tail :: same, others)
    else
      ([], (first :: tail) :: values)
  | values => ([], values)

/-- The bytes of all values and one more for each. -/
def weight : List Bytes → Nat
  | [] => 0
  | value :: values => value.length + 1 + weight values

theorem weight_takeBranch (byte : UInt8) (values : List Bytes) :
    weight (takeBranch byte values).1 + weight (takeBranch byte values).2 ≤ weight values := by
  fun_induction takeBranch byte values with
  | case1 =>
    simp_all [weight]
    omega
  | case2 => simp [weight]
  | case3 => simp [weight]

/-- The start that an ascending list of values has in common: its ends decide. -/
def sharedStart (values : List Bytes) : Bytes :=
  Bytes.commonStart (values.head?.getD []) (values.getLast?.getD [])

/-- The values without their first `count` bytes. -/
def dropStarts (count : Nat) (values : List Bytes) : List Bytes := values.map (List.drop count)

/-- The values but for a leading empty one. -/
def nonEmpty : List Bytes → List Bytes
  | [] :: values => values
  | values => values

theorem weight_dropStarts (count : Nat) (values : List Bytes) :
    weight (dropStarts count values) ≤ weight values := by
  induction values with
  | nil => simp [weight, dropStarts]
  | cons value rest ih =>
    simp only [weight, dropStarts, List.map_cons, List.length_drop] at ih ⊢
    omega

theorem weight_nonEmpty (values : List Bytes) : weight (nonEmpty values) ≤ weight values := by
  fun_cases nonEmpty values with
  | case1 => simp [weight]
  | case2 => exact Nat.le_refl _

mutual

/-- The tree of an ascending list of distinct values. -/
def ofSorted (values : List Bytes) : Trie :=
  let label := sharedStart values
  let ends := dropStarts label.length values
  .node label (ends.head? == some []) (branchesOf (nonEmpty ends))
termination_by (weight values, 1)
decreasing_by
  simp only [Prod.lex_def]
  have := weight_dropStarts (sharedStart values).length values
  have := weight_nonEmpty (dropStarts (sharedStart values).length values)
  omega

/-- The branches of an ascending list of distinct values that are not empty. -/
def branchesOf : List Bytes → Branches
  | (byte :: tail) :: values =>
    let split := takeBranch byte values
    .cons byte (ofSorted (tail :: split.1)) (branchesOf split.2)
  | _ => .nil
termination_by values => (weight values, 0)
decreasing_by
  all_goals
    simp only [Prod.lex_def]
    have parts := weight_takeBranch byte values
    simp only [weight, List.length_cons] at parts ⊢
    omega

end

end Trie

mutual

def Trie.count : Trie → Nat
  | .node _ hasValue branches => hasValue.toNat + branches.count

def Branches.count : Branches → Nat
  | .nil => 0
  | .cons _ child rest => child.count + rest.count

end

mutual

def Trie.toList : Trie → List Bytes
  | .node label hasValue branches =>
    ((if hasValue then [[]] else []) ++ branches.toList).map (label ++ ·)

/-- The values below all branches, each with the byte that leads to it. -/
def Branches.toList : Branches → List Bytes
  | .nil => []
  | .cons byte child rest => child.toList.map (byte :: ·) ++ rest.toList

end

end DocStore
