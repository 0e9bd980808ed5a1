import DocStore.Format.Error
import DocStore.View

/-!
Nodes of a stored radix tree. A node is a flag byte, the number of values of its subtree, a
label if the flags say so, and a table of edges in one of four shapes:

* leaf: no edges;
* single: a byte and a child;
* sparse: a count, that many bytes, that many children;
* dense: a first byte, a span, and one child or gap for each byte of the span.

Children are offsets into the node region. Reading a node that was not checked may meet a
fault; a checked node lies in the region with its label and its table.
-/

namespace DocStore

/-- Where the edges of a node are and in which shape. -/
inductive EdgeTable where
  | leaf
  | single (byte : UInt8) (child : Nat)
  | sparse (count tableAt : Nat)
  | dense (first : UInt8) (span tableAt : Nat)
deriving DecidableEq, Repr

/-- A node as it is stored. -/
structure TrieNode where
  hasValue : Bool
  /-- The values of the subtree, the node's own included. -/
  count : Nat
  labelAt : Nat
  labelLength : Nat
  table : EdgeTable
deriving DecidableEq, Repr

/-- A byte and the child it leads to. -/
structure Edge where
  byte : UInt8
  child : Nat
deriving DecidableEq, Repr

namespace TrieNode

/-- The flag of a node where a value ends. -/
def valueFlag : UInt8 := 1

/-- The flag of a node with a label. -/
def labelFlag : UInt8 := 2

/-- The flags without a meaning. -/
def unusedFlags : UInt8 := 0xF0

/-- What a dense table holds for a byte without a child. -/
def gap : Nat := 0xFFFFFFFF

def readTable (nodes : View) (shape tableAt : Nat) : Except Fault EdgeTable := do
  match shape with
  | 1 => return .single (← nodes.byteAt tableAt) (← nodes.uint32At (tableAt + 1))
  | 2 => return .sparse (← nodes.uint32At tableAt) (tableAt + 4)
  | 3 => return .dense (← nodes.byteAt tableAt) (← nodes.uint32At (tableAt + 1)) (tableAt + 5)
  | _ => return .leaf

def readAt (nodes : View) (offset : Nat) : Except Fault TrieNode := do
  let flags ← nodes.byteAt offset
  let count ← nodes.uint32At (offset + 1)
  let labelled := flags &&& labelFlag ≠ 0
  let labelLength ← if labelled then nodes.uint32At (offset + 5) else pure 0
  let labelAt := if labelled then offset + 9 else offset + 5
  let table ← readTable nodes (flags >>> 2).toNat (← addSizes labelAt labelLength)
  return { hasValue := flags &&& valueFlag ≠ 0, count, labelAt, labelLength, table }

/-- The number of values below the node at an offset. -/
def countAt (nodes : View) (offset : Nat) : Except Fault Nat := nodes.uint32At (offset + 1)

def label (node : TrieNode) (nodes : View) : Except Fault Bytes :=
  nodes.bytesAt node.labelAt node.labelLength

/-- The edges of a node in the order of its table. Slot `k` of a dense table is for the byte `k`
after the first one. -/
def edges (node : TrieNode) (nodes : View) : Except Fault (List Edge) :=
  match node.table with
  | .leaf => return []
  | .single byte child => return [⟨byte, child⟩]
  | .sparse count tableAt =>
    (List.range count).mapM fun k => do
      return ⟨← nodes.byteAt (tableAt + k), ← nodes.uint32At (tableAt + count + k * 4)⟩
  | .dense first span tableAt =>
    (List.range span).filterMapM fun k => do
      let child ← nodes.uint32At (tableAt + k * 4)
      if child = gap then return none else return some ⟨← addBytes first (UInt8.ofNat k), child⟩

/-- Refuses the node at `offset` unless the region has the bytes `[position, position + width)`. -/
def need (nodes : View) (offset position width : Nat) : Except (Failure FormatError) Unit :=
  if position + width < sizeLimit ∧ position + width ≤ nodes.size then .ok ()
  else refuse (FormatError.corrupt (.nodeOutOfBounds offset))

/-- Where the table of the node at `offset` begins, if its label lies in the region. -/
def checkedLabel (nodes : View) (offset : Nat) (flags : UInt8) :
    Except (Failure FormatError) Nat := do
  if flags &&& labelFlag ≠ 0 then
    need nodes offset (offset + 5) 4
    let labelLength ← nodes.uint32At (offset + 5)
    need nodes offset (offset + 9) labelLength
    return offset + 9 + labelLength
  else
    return offset + 5

/-- Checks that the table of the node at `offset` lies in the region. -/
def checkTable (nodes : View) (offset shape tableAt : Nat) :
    Except (Failure FormatError) Unit := do
  match shape with
  | 1 => need nodes offset tableAt 5
  | 2 =>
    need nodes offset tableAt 4
    need nodes offset (tableAt + 4) ((← nodes.uint32At tableAt) * 5)
  | 3 =>
    need nodes offset tableAt 5
    let first ← nodes.byteAt tableAt
    let span ← nodes.uint32At (tableAt + 1)
    if first.toNat + span > 256 then
      refuse (FormatError.corrupt (.nodeOutOfBounds offset))
    else
      need nodes offset (tableAt + 5) (span * 4)
  | _ => return

/-- The node at an offset, if it lies in the region with its label and its table. -/
def checkedAt (nodes : View) (offset : Nat) : Except (Failure FormatError) TrieNode := do
  need nodes offset offset 5
  let flags ← nodes.byteAt offset
  if flags &&& unusedFlags ≠ 0 then
    refuse (FormatError.corrupt (.nodeFlags offset flags.toNat))
  else
    let tableAt ← checkedLabel nodes offset flags
    checkTable nodes offset (flags >>> 2).toNat tableAt
    TrieNode.readAt nodes offset

end TrieNode

end DocStore
