import DocStore.Dictionary.Basic
import DocStore.Dictionary.Trie
import DocStore.Dictionary.ValueSet

/-!
The stored forms of a set of values. Each starts with its kind and the number of values. The
radix form writes children before their parents, so that every child offset is below its
parent's; a node with several children is dense when that is shorter than sparse.
-/

namespace DocStore

/-- The bytes from the lowest edge to the highest. -/
def edgeSpan : List Edge → Nat
  | [] => 0
  | edge :: rest => ((edge :: rest).getLastD edge).byte.toNat - edge.byte.toNat + 1

/-- The child of a byte in a dense table, or the mark of a gap. -/
def denseSlot (edges : List Edge) (byte : UInt8) : Bytes :=
  match edges.find? fun edge => edge.byte = byte with
  | some edge => Bytes.ofUInt32 edge.child
  | none => Bytes.ofUInt32 TrieNode.gap

/-- The shape of the edge table of a node, and the table. -/
def edgeTableBytes (edges : List Edge) : UInt8 × Bytes :=
  match edges with
  | [] => (0, [])
  | [edge] => (1, edge.byte :: Bytes.ofUInt32 edge.child)
  | first :: _ =>
    let span := edgeSpan edges
    if 5 + span * 4 < 4 + edges.length * 5 then
      (3, first.byte :: Bytes.ofUInt32 span ++
        (List.range span).flatMap fun k => denseSlot edges (first.byte + UInt8.ofNat k))
    else
      (2, Bytes.ofUInt32 edges.length ++ edges.map Edge.byte ++
        edges.flatMap fun edge => Bytes.ofUInt32 edge.child)

def nodeBytes (label : Bytes) (hasValue : Bool) (count : Nat) (edges : List Edge) : Bytes :=
  let (shape, table) := edgeTableBytes edges
  let flags := shape <<< 2 ||| (if hasValue then TrieNode.valueFlag else 0) |||
    (if label.isEmpty then 0 else TrieNode.labelFlag)
  flags :: Bytes.ofUInt32 count ++ (if label.isEmpty then [] else Bytes.counted label) ++ table

mutual

/-- The stored nodes of a tree, the first at offset `start`, and the offset of the root. -/
def Trie.layout (start : Nat) : Trie → Bytes × Nat
  | .node label hasValue branches =>
    let (below, edges) := branches.layout start
    let node := nodeBytes label hasValue (hasValue.toNat + branches.count) edges
    (below ++ node, start + below.length)

/-- The stored nodes of all branches, the first at offset `start`, and the edges to them. -/
def Branches.layout (start : Nat) : Branches → Bytes × List Edge
  | .nil => ([], [])
  | .cons byte child rest =>
    let (nodes, root) := child.layout start
    let (others, edges) := rest.layout (start + nodes.length)
    (nodes ++ others, ⟨byte, root⟩ :: edges)

end

namespace ValueSet

/-- The form with values of one width. The set has to have one width, or no value. -/
def fixedForm (s : ValueSet) : Bytes :=
  Bytes.ofUInt32 DictionaryKind.fixed.code ++ Bytes.ofUInt32 s.size ++
    Bytes.ofUInt32 (s.uniformLength?.getD 0) ++ s.values.flatten

def variableForm (s : ValueSet) : Bytes :=
  Bytes.ofUInt32 DictionaryKind.varied.code ++ Bytes.ofUInt32 s.size ++
    (Bytes.offsets (s.values.map List.length)).flatMap Bytes.ofUInt32 ++ s.values.flatten

def trieForm (s : ValueSet) : Bytes :=
  let (nodes, root) := if s.isEmpty then ([], 0) else (Trie.ofSorted s.values).layout 0
  Bytes.ofUInt32 DictionaryKind.trie.code ++ Bytes.ofUInt32 s.size ++ Bytes.ofUInt32 root ++
    Bytes.counted nodes

def form (s : ValueSet) : DictionaryKind → Bytes
  | .fixed => s.fixedForm
  | .varied => s.variableForm
  | .trie => s.trieForm

/-- The length of the form with values of one width. -/
def fixedFormLength (s : ValueSet) : Nat := 12 + s.totalLength

def variableFormLength (s : ValueSet) : Nat := 12 + 4 * s.size + s.totalLength

end ValueSet

end DocStore
