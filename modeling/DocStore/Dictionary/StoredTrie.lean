import DocStore.Dictionary.Node
import DocStore.Format.Decoder

/-!
Dictionaries stored as radix trees. Decoding checks every node that the root leads to: it lies
in the region, its children lie before it, its edges go up, and it counts as many values as it
and its children hold. The counts then give ranks: the rank of a value is the number of values
that end on the way to it, plus the counts of the smaller branches passed by.

Children lie before their parents, so every walk down ends.
-/

namespace DocStore

/-- A radix tree in a region of nodes. -/
structure StoredTrie where
  size : Nat
  root : Nat
  nodes : View

namespace StoredTrie

/-- The children of a node and the values they hold, if every child lies before the node and
every edge byte is above the one before it. -/
def checkEdges (nodes : View) (node : Nat) :
    Option UInt8 → List Edge → Except (Failure FormatError) (List { child // child < node } × Nat)
  | _, [] => return ([], 0)
  | last, edge :: rest => do
    if before : edge.child < node then
      if last.any (edge.byte ≤ ·) then
        throw (.refused (.corrupt (.edgesOutOfOrder node)))
      let _ ← TrieNode.checkedAt nodes edge.child
      let held ← TrieNode.countAt nodes edge.child
      let (children, total) ← checkEdges nodes node (some edge.byte) rest
      return (⟨edge.child, before⟩ :: children, ← addSizes held total)
    else
      throw (.refused (.corrupt (.childNotBefore edge.child node)))

/-- Checks a node and all nodes below it. The node itself comes first; of its subtrees the last
comes first. -/
def checkBelow (nodes : View) (offset : Nat) : Except (Failure FormatError) Unit := do
  let node ← TrieNode.checkedAt nodes offset
  let edges ← node.edges nodes
  let (children, held) ← checkEdges nodes offset none edges
  let total ← addSizes node.hasValue.toNat held
  if node.count = 0 ∨ total ≠ node.count then
    throw (.refused (.corrupt (.nodeCount offset node.count total)))
  children.reverse.forM fun ⟨child, _before⟩ => checkBelow nodes child
termination_by offset

/-- Checks the whole tree. A dictionary without values has no nodes to check. -/
def check (t : StoredTrie) : Except (Failure FormatError) Unit :=
  if t.size = 0 then
    return
  else do
    let root ← TrieNode.checkedAt t.nodes t.root
    if root.count ≠ t.size then
      throw (.refused (.corrupt (.trieCount root.count t.size)))
    checkBelow t.nodes t.root

/-- Reads the size, the root and the nodes, and checks them. -/
def decode : Decoder StoredTrie := do
  let size ← Decoder.uint32 "trie size"
  let root ← Decoder.uint32 "trie root offset"
  let length ← Decoder.uint32 "trie node region length"
  let nodes ← Decoder.slice length "trie nodes"
  let trie : StoredTrie := { size, root, nodes }
  trie.check
  return trie

/-- The number of values below a node that are smaller than `rest`, and whether `rest` is one
of them. -/
def locateBelow (nodes : View) (offset : Nat) (rest : Bytes) : Except Fault (Nat × Bool) := do
  let node ← TrieNode.readAt nodes offset
  let label ← node.label nodes
  if label.isPrefixOf rest then
    match rest.drop label.length with
    | [] => return (0, node.hasValue)
    | byte :: tail =>
      let edges ← node.edges nodes
      let smaller := edges.takeWhile (·.byte < byte)
      let passed ← smaller.mapM fun edge => TrieNode.countAt nodes edge.child
      let below ← passed.foldlM addSizes node.hasValue.toNat
      match edges.drop smaller.length with
      | edge :: _ =>
        if edge.byte = byte then
          if _before : edge.child < offset then
            let (deeper, found) ← locateBelow nodes edge.child tail
            return (← addSizes below deeper, found)
          else
            throw .outOfRange
        else
          return (below, false)
      | [] => return (below, false)
  else if label < rest then
    return (node.count, false)
  else
    return (0, false)
termination_by offset

/-- The number of values smaller than a byte string, and whether it is a value itself. -/
def locate (t : StoredTrie) (value : Bytes) : Except Fault (Nat × Bool) :=
  if t.size = 0 then return (0, false) else locateBelow t.nodes t.root value

/-- The edge whose subtree holds the value of a rank among the values of all edges, and the
rank within that subtree. -/
def edgeOfRank (nodes : View) : List Edge → Nat → Except Fault (Option (Edge × Nat))
  | [], _ => return none
  | edge :: rest, rank => do
    let count ← TrieNode.countAt nodes edge.child
    if rank < count then return some (edge, rank)
    else edgeOfRank nodes rest (← subSizes rank count)

/-- The value of a rank among the values below a node. -/
def getBelow (nodes : View) (offset rank : Nat) : Except Fault Bytes := do
  let node ← TrieNode.readAt nodes offset
  let label ← node.label nodes
  if node.hasValue ∧ rank = 0 then
    return label
  let edges ← node.edges nodes
  match ← edgeOfRank nodes edges (← subSizes rank node.hasValue.toNat) with
  | some (edge, inner) =>
    if _before : edge.child < offset then
      return label ++ edge.byte :: (← getBelow nodes edge.child inner)
    else
      throw .outOfRange
  | none => return label
termination_by offset

def get (t : StoredTrie) (rank : Nat) : Except Fault Bytes :=
  if rank < t.size then getBelow t.nodes t.root rank
  else throw (.valueOutOfRange rank t.size)

end StoredTrie

end DocStore
