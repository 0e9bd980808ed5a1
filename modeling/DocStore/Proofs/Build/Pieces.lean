import DocStore.Build.Builder
import DocStore.Proofs.Trie.Layout

/-! What the writers put together: each number that they store in 32 bits, as it was before its
higher bits were cut, and the bytes in between. -/
namespace DocStore

/-- A piece of a stored form: a number that takes 32 bits, or other bytes. -/
inductive Piece where
  | number (value : Nat)
  | other (bytes : Bytes)

namespace Piece

variable {front back : List Piece} {bytes : Bytes} {n : Nat}

def form : Piece → Bytes
  | number value => Bytes.ofUInt32 value
  | other bytes => bytes

def join (pieces : List Piece) : Bytes := pieces.flatMap form

def numbers (pieces : List Piece) : List Nat :=
  pieces.filterMap fun
    | number value => some value
    | other _ => none

/-- No number loses a bit. -/
def Kept (pieces : List Piece) : Prop := ∀ n ∈ numbers pieces, n < 2 ^ 32

def table (values : List Nat) : List Piece := values.map number

def counted (bytes : Bytes) : List Piece := [number bytes.length, other bytes]

@[simp] theorem join_nil : join [] = [] := rfl

@[simp] theorem join_number (n : Nat) (rest : List Piece) :
    join (number n :: rest) = Bytes.ofUInt32 n ++ join rest := rfl

@[simp] theorem join_other (bytes : Bytes) (rest : List Piece) :
    join (other bytes :: rest) = bytes ++ join rest := rfl

@[simp] theorem join_append (front back : List Piece) :
    join (front ++ back) = join front ++ join back := List.flatMap_append

@[simp] theorem join_counted (bytes : Bytes) : join (counted bytes) = Bytes.counted bytes := by
  simp [counted, Bytes.counted]

@[simp] theorem join_table (values : List Nat) :
    join (table values) = values.flatMap Bytes.ofUInt32 := by
  rw [join, table, List.flatMap_map]
  rfl

theorem join_flatten (lists : List (List Piece)) :
    join lists.flatten = (lists.map join).flatten := by
  induction lists with
  | nil => rfl
  | cons l rest ih => rw [List.flatten_cons, join_append, ih, List.map_cons, List.flatten_cons]

theorem kept_nil : Kept [] := fun _ inside => absurd inside List.not_mem_nil

theorem kept_number {rest : List Piece} : Kept (number n :: rest) ↔ n < 2 ^ 32 ∧ Kept rest :=
  List.forall_mem_cons

theorem kept_other {rest : List Piece} : Kept (other bytes :: rest) ↔ Kept rest := Iff.rfl

theorem kept_append : Kept (front ++ back) ↔ Kept front ∧ Kept back := by
  unfold Kept numbers
  rw [List.filterMap_append, List.forall_mem_append]

theorem kept_counted : Kept (counted bytes) ↔ bytes.length < 2 ^ 32 :=
  kept_number.trans (and_iff_left kept_nil)

theorem kept_table {values : List Nat} : Kept (table values) ↔ ∀ n ∈ values, n < 2 ^ 32 := by
  induction values with
  | nil => exact iff_of_true kept_nil fun _ inside => absurd inside List.not_mem_nil
  | cons n rest ih => rw [table, List.map_cons, kept_number, List.forall_mem_cons, ← ih, table]

theorem kept_flatten {lists : List (List Piece)} : Kept lists.flatten ↔ ∀ l ∈ lists, Kept l := by
  induction lists with
  | nil => exact iff_of_true kept_nil fun _ inside => absurd inside List.not_mem_nil
  | cons l rest ih => rw [List.flatten_cons, kept_append, List.forall_mem_cons, ih]

end Piece

def edgeTablePieces (edges : List Edge) : List Piece :=
  match edges with
  | [] => []
  | [edge] => [.other [edge.byte], .number edge.child]
  | first :: _ =>
    let span := edgeSpan edges
    if 5 + span * 4 < 4 + edges.length * 5 then
      .other [first.byte] :: .number span ::
        Piece.table ((List.range span).map fun k => slotOf edges (first.byte + UInt8.ofNat k))
    else
      .number edges.length :: .other (edges.map Edge.byte) ::
        Piece.table (edges.map Edge.child)

def nodePieces (label : Bytes) (hasValue : Bool) (count : Nat) (edges : List Edge) : List Piece :=
  let flags := (edgeTableBytes edges).1 <<< 2 ||| (if hasValue then TrieNode.valueFlag else 0) |||
    (if label.isEmpty then 0 else TrieNode.labelFlag)
  .other [flags] :: .number count :: (if label.isEmpty then [] else Piece.counted label) ++
    edgeTablePieces edges

mutual

def Trie.pieces (start : Nat) : Trie → List Piece
  | .node label hasValue branches =>
    branches.pieces start ++
      nodePieces label hasValue (hasValue.toNat + branches.count) (branches.layout start).2

def Branches.pieces (start : Nat) : Branches → List Piece
  | .nil => []
  | .cons _ child rest => child.pieces start ++ rest.pieces (start + (child.layout start).1.length)

end

namespace ValueSet

def pieces (s : ValueSet) : DictionaryKind → List Piece
  | .fixed => [.number DictionaryKind.fixed.code, .number s.size,
      .number (s.uniformLength?.getD 0), .other s.values.flatten]
  | .varied => .number DictionaryKind.varied.code :: .number s.size ::
      Piece.table (Bytes.offsets (s.values.map List.length)) ++ [.other s.values.flatten]
  | .trie =>
    let (nodes, root) := if s.isEmpty then ([], 0) else (Trie.ofSorted s.values).layout 0
    .number DictionaryKind.trie.code :: .number s.size :: .number root :: .number nodes.length ::
      if s.isEmpty then [] else (Trie.ofSorted s.values).pieces 0

end ValueSet

namespace PostingsBuilder

def pieces (b : PostingsBuilder) : PostingsEncoding → Except Fault (List Piece)
  | .list => return .number PostingsEncoding.list.code :: .number b.normalize.keys ::
      Piece.table (Bytes.offsets (b.normalize.buckets.toList.map List.length)) ++
        Piece.table b.normalize.buckets.toList.flatten
  | .bits => do
    let words ← wordsFor b.documents
    return [.number PostingsEncoding.bits.code, .number b.normalize.keys, .number words,
      .other (b.normalize.buckets.toList.flatMap fun bucket =>
        (List.range words).flatMap fun index => Bytes.ofUInt64 (vectorWord bucket index).toNat)]

end PostingsBuilder

def Payloads.pieces (payloads : List Bytes) : List Piece :=
  [.number payloads.length,
    .other ((Bytes.offsets (payloads.map List.length)).flatMap Bytes.ofUInt64 ++ payloads.flatten)]

def Segment.pieces (kind : SegmentKind) (body : List Piece) : List Piece :=
  .number ((Piece.join body).length + 4) :: .number kind.code :: body

namespace Column

def ranksPieces (c : Column) (documents : Nat) : List Piece :=
  .number documents :: Piece.table ((List.range documents).map c.rankOf)

def indexPieces (c : Column) (documents : Nat) (kind : DictionaryKind)
    (encoding? : Option PostingsEncoding) : Except (Failure BuildError) (List Piece) := do
  let collected ← c.collect documents
  let encoding ← encoding?.elim collected.choice pure
  return c.values.pieces kind ++ (← collected.pieces encoding)

def pieces (c : Column) (documents : Nat) : Except (Failure BuildError) (List Piece) := do
  return Piece.counted (Value.textBytes c.name) ++
    (← c.indexPieces documents c.indexing.dictionaryKind none) ++
    if c.indexing.isSortable then c.ranksPieces documents else []

end Column

def Builder.pieces (b : Builder) : Except (Failure BuildError) (List Piece) := do
  let segments ← b.columns.mapM fun column => do
    return Segment.pieces column.indexing.segmentKind (← column.pieces b.size)
  return Segment.pieces .payload (Payloads.pieces b.payloads) ++ segments.flatten

open Piece

theorem join_edgeTablePieces (edges : List Edge) :
    join (edgeTablePieces edges) = (edgeTableBytes edges).2 := by
  unfold edgeTablePieces edgeTableBytes
  split
  · rfl
  · simp
  · rename_i first rest _
    dsimp only
    split
    · simp [List.flatMap_map, denseSlot_eq]
    · simp [List.flatMap_map]

theorem join_nodePieces (label : Bytes) (hasValue : Bool) (count : Nat) (edges : List Edge) :
    join (nodePieces label hasValue count edges) = nodeBytes label hasValue count edges := by
  unfold nodePieces nodeBytes
  cases label.isEmpty <;> simp [join_edgeTablePieces]

-- By recursion on the tree and its branches, as they are laid out.
mutual

theorem Trie.join_pieces (t : Trie) (start : Nat) : join (t.pieces start) = (t.layout start).1 := by
  match t with
  | .node label hasValue branches =>
    rw [Trie.pieces, Trie.layout, join_append, branches.join_pieces, join_nodePieces]

theorem Branches.join_pieces (b : Branches) (start : Nat) :
    join (b.pieces start) = (b.layout start).1 := by
  match b with
  | .nil => rfl
  | .cons byte child rest =>
    rw [Branches.pieces, Branches.layout, join_append, child.join_pieces, rest.join_pieces]

end

theorem ValueSet.join_pieces (s : ValueSet) (kind : DictionaryKind) :
    join (s.pieces kind) = s.form kind := by
  cases kind with
  | fixed => simp [pieces, form, fixedForm]
  | varied => simp [pieces, form, variableForm]
  | trie =>
    unfold pieces form trieForm
    cases s.isEmpty <;> simp [Bytes.counted, Trie.join_pieces]

theorem PostingsBuilder.join_pieces (b : PostingsBuilder) (encoding : PostingsEncoding) :
    b.form encoding = join <$> b.pieces encoding := by
  cases encoding with
  | list => simp [form, pieces, listForm]
  | bits => cases words : wordsFor b.documents <;> simp [form, pieces, words, bitForm]

theorem Payloads.join_pieces (payloads : List Bytes) :
    join (pieces payloads) = form payloads := by
  simp [pieces, form]

@[simp] theorem Segment.join_pieces (kind : SegmentKind) (body : List Piece) :
    join (pieces kind body) = form kind (join body) := by
  simp [pieces, form]

theorem Column.join_ranksPieces (c : Column) (documents : Nat) :
    join (c.ranksPieces documents) = c.ranksForm documents := by
  simp [ranksPieces, ranksForm, List.flatMap_map]

theorem Column.join_pieces (c : Column) (documents : Nat) :
    c.form documents = join <$> c.pieces documents := by
  unfold Column.form Column.pieces indexForm indexPieces
  cases c.collect documents with
  | error failure => rfl
  | ok collected =>
    simp only [ok_bind, Option.elim_none]
    cases collected.choice with
    | error cause => rfl
    | ok encoding =>
      simp only [lift_ok, ok_bind, PostingsBuilder.join_pieces]
      cases collected.pieces encoding with
      | error cause => rfl
      | ok stored =>
        cases sorts : c.indexing.isSortable <;>
          simp [ValueSet.join_pieces, Column.join_ranksPieces]

theorem mapM_map {α β γ δ : Type} (f : α → Except δ β) (g : β → γ) (items : List α) :
    (items.mapM fun a => g <$> f a) = List.map g <$> items.mapM f := by
  induction items with
  | nil => rfl
  | cons a rest ih =>
    rw [List.mapM_cons, List.mapM_cons, ih]
    cases f a with
    | error e => rfl
    | ok b => cases rest.mapM f <;> rfl

/-- A sealed builder is what its pieces are stored as. -/
theorem Builder.join_pieces (b : Builder) : b.freeze =
    (fun pieces => ⟨b.size, b.columns.length, join pieces⟩) <$> b.pieces := by
  unfold freeze pieces
  have each (c : Column) : (do
        return Segment.form c.indexing.segmentKind (← c.form b.size)) =
      join <$> (do return Segment.pieces c.indexing.segmentKind (← c.pieces b.size)) := by
    rw [Column.join_pieces]
    cases c.pieces b.size with
    | error failure => rfl
    | ok body => exact congrArg Except.ok (Segment.join_pieces _ body).symm
  simp only [each, mapM_map]
  cases b.columns.mapM fun c => do
    return Segment.pieces c.indexing.segmentKind (← c.pieces b.size) with
  | error failure => rfl
  | ok segments => simp [join_flatten, Payloads.join_pieces]

end DocStore
