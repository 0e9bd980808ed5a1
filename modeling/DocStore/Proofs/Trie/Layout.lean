import DocStore.Dictionary.Layout
import DocStore.Proofs.Trie.Spelling
import Mathlib.Data.List.Basic

/-! Written radix trees: reading a written node gives its label and its edges back, and the
layout of a tree spells its values. -/
namespace DocStore

variable {nodes : View} {edges : List Edge}

structure Edges.Fit (edges : List Edge) : Prop where
  ascending : edges.Pairwise (·.byte < ·.byte)
  children : ∀ edge ∈ edges, edge.child < TrieNode.gap

def slotOf (edges : List Edge) (byte : UInt8) : Nat :=
  (edges.find? fun edge => edge.byte = byte).elim TrieNode.gap Edge.child

theorem denseSlot_eq (edges : List Edge) (byte : UInt8) :
    denseSlot edges byte = Bytes.ofUInt32 (slotOf edges byte) := by
  unfold denseSlot slotOf
  split <;> simp [*]

theorem slotOf_lt (children : ∀ edge ∈ edges, edge.child < 2 ^ 32) (byte : UInt8) :
    slotOf edges byte < 2 ^ 32 := by
  unfold slotOf
  cases found : edges.find? fun edge => edge.byte = byte with
  | none => decide
  | some edge => exact children edge (List.mem_of_find?_eq_some found)

theorem find?_eq_none_of_above {low : Nat} (above : ∀ edge ∈ edges, low < edge.byte.toNat) :
    edges.find? (·.byte.toNat = low) = none :=
  List.find?_eq_none.mpr fun edge inside => by simpa using Nat.ne_of_gt (above edge inside)

/-- A window of bytes looked up one after the other gives ascending edges back. -/
theorem filterMap_find?_window (ascending : edges.Pairwise (·.byte < ·.byte)) {low count : Nat}
    (window : ∀ edge ∈ edges, low ≤ edge.byte.toNat ∧ edge.byte.toNat < low + count) :
    (List.range' low count).filterMap (fun byte => edges.find? (·.byte.toNat = byte)) = edges := by
  induction count generalizing low edges with
  | zero =>
    cases edges with
    | nil => rfl
    | cons edge rest =>
      have := window edge List.mem_cons_self
      omega
  | succ count ih =>
    rw [List.range'_succ]
    cases edges with
    | nil => simp
    | cons edge rest =>
      obtain ⟨least, others⟩ := List.pairwise_cons.mp ascending
      have higher : ∀ other ∈ rest, edge.byte.toNat < other.byte.toNat := fun other later =>
        UInt8.lt_iff_toNat_lt.mp (least other later)
      have here := window edge List.mem_cons_self
      by_cases first : edge.byte.toNat = low
      · rw [List.filterMap_cons_some (b := edge) (by simp [first])]
        have later : ∀ byte ∈ List.range' (low + 1) count,
            (edge :: rest).find? (·.byte.toNat = byte) = rest.find? (·.byte.toNat = byte) :=
          fun byte inside => by
            have := List.mem_range'_1.mp inside
            exact List.find?_cons_of_neg (by simp; omega)
        have rest_window : ∀ other ∈ rest, low + 1 ≤ other.byte.toNat ∧
            other.byte.toNat < low + 1 + count := fun other inside => by
          have := window other (List.mem_cons_of_mem _ inside)
          have := higher other inside
          omega
        exact congrArg (edge :: ·) ((List.filterMap_congr later).trans (ih others rest_window))
      · have above : ∀ other ∈ edge :: rest, low < other.byte.toNat := fun other inside => by
          rcases List.mem_cons.mp inside with rfl | later
          · omega
          · have := higher other later
            omega
        simp only [List.filterMap_cons, find?_eq_none_of_above above]
        refine ih ascending fun other inside => ⟨above other inside, ?_⟩
        have := window other inside
        omega

def slotEdge? (edges : List Edge) (byte : UInt8) : Option Edge :=
  if slotOf edges byte = TrieNode.gap then none else some ⟨byte, slotOf edges byte⟩

/-- The slots of a dense table give its edges back. -/
theorem edges_of_slots (fit : Edges.Fit edges) {first : UInt8} {span : Nat}
    (bytes : first.toNat + span ≤ 256)
    (window : ∀ edge ∈ edges, first ≤ edge.byte ∧ edge.byte.toNat < first.toNat + span) :
    (List.range span).filterMap (fun k => slotEdge? edges (first + UInt8.ofNat k)) = edges := by
  have position : ∀ k < span, (first + UInt8.ofNat k).toNat = first.toNat + k := fun k inside => by
    rw [UInt8.toNat_add, UInt8.toNat_ofNat']
    omega
  have looked : ∀ k ∈ List.range span, slotEdge? edges (first + UInt8.ofNat k) =
      edges.find? (·.byte.toNat = first.toNat + k) := fun k inside => by
    have same : ∀ edge : Edge, edge.byte = first + UInt8.ofNat k ↔
        edge.byte.toNat = first.toNat + k := fun edge => by
      rw [← position k (List.mem_range.mp inside), UInt8.toNat_inj]
    simp only [← same]
    unfold slotEdge? slotOf
    cases found : edges.find? fun edge => edge.byte = first + UInt8.ofNat k with
    | none => exact if_pos rfl
    | some edge =>
      have child := fit.children edge (List.mem_of_find?_eq_some found)
      have byte : edge.byte = first + UInt8.ofNat k := by simpa using List.find?_some found
      rw [Option.elim_some, if_neg (Nat.ne_of_lt child), ← byte]
  refine (List.filterMap_congr looked).trans ?_
  have low : (List.range span).filterMap (fun k => edges.find? (·.byte.toNat = first.toNat + k)) =
      (List.range' first.toNat span).filterMap (fun byte => edges.find? (·.byte.toNat = byte)) := by
    rw [List.range'_eq_map_range, List.filterMap_map]
    rfl
  rw [low]
  exact filterMap_find?_window fit.ascending fun edge inside =>
    ⟨UInt8.le_iff_toNat_le.mp (window edge inside).1, (window edge inside).2⟩

theorem le_getLastD {first : Edge} {rest : List Edge}
    (ascending : (first :: rest).Pairwise (·.byte < ·.byte)) :
    ∀ edge ∈ first :: rest, edge.byte ≤ (rest.getLastD first).byte := by
  induction rest generalizing first with
  | nil =>
    intro edge inside
    rw [List.mem_singleton.mp inside]
    exact UInt8.le_refl _
  | cons second rest ih =>
    obtain ⟨least, others⟩ := List.pairwise_cons.mp ascending
    intro edge inside
    rw [List.getLastD_cons]
    rcases List.mem_cons.mp inside with rfl | later
    · exact UInt8.le_trans (UInt8.le_of_lt (least second List.mem_cons_self))
        (ih others second List.mem_cons_self)
    · exact ih others edge later

/-- The span of ascending edges covers them and ends with the last byte there is. -/
theorem edgeSpan_covers {first : Edge} {rest : List Edge}
    (ascending : (first :: rest).Pairwise (·.byte < ·.byte)) :
    first.byte.toNat + edgeSpan (first :: rest) ≤ 256 ∧ ∀ edge ∈ first :: rest,
      first.byte ≤ edge.byte ∧ edge.byte.toNat < first.byte.toNat + edgeSpan (first :: rest) := by
  have top := (rest.getLastD first).byte.toNat_lt
  have span : edgeSpan (first :: rest) =
      (rest.getLastD first).byte.toNat - first.byte.toNat + 1 := by
    rw [edgeSpan, List.getLastD_cons]
  have lowest : first.byte.toNat ≤ (rest.getLastD first).byte.toNat :=
    UInt8.le_iff_toNat_le.mp (le_getLastD ascending first List.mem_cons_self)
  refine ⟨by omega, fun edge inside => ⟨?_, ?_⟩⟩
  · rcases List.mem_cons.mp inside with rfl | later
    · exact UInt8.le_refl _
    · exact UInt8.le_of_lt ((List.pairwise_cons.mp ascending).1 edge later)
  · have := UInt8.le_iff_toNat_le.mp (le_getLastD ascending edge inside)
    omega

namespace TrieNode

variable {tableAt : Nat}

theorem reaches_of_le (small : nodes.size < 2 ^ 32) {stop : Nat} (inside : stop ≤ nodes.size) :
    Reaches nodes stop :=
  ⟨lt_sizeLimit (Nat.lt_of_le_of_lt inside small), inside⟩

structure Tabled (nodes : View) (shape tableAt : Nat) (edges : List Edge) : Prop where
  fits : TableFits nodes tableAt shape
  reads : ∃ table, readTable nodes shape tableAt = .ok table ∧
    ∀ node : TrieNode, node.table = table → node.edges nodes = .ok edges

theorem tabled_sparse (fit : Edges.Fit edges) (small : nodes.size < 2 ^ 32)
    (has : nodes.Has tableAt (Bytes.ofUInt32 edges.length ++ edges.map Edge.byte ++
      edges.flatMap fun edge => Bytes.ofUInt32 edge.child)) : Tabled nodes 2 tableAt edges := by
  obtain ⟨⟨counted, bytes⟩, children⟩ := has.append.imp_left View.Has.append
  have widths : ∀ edge ∈ edges, (Bytes.ofUInt32 edge.child).length = 4 := fun _ _ =>
    Bytes.length_ofUInt32 _
  have room := children.inside
  rw [Bytes.length_flatMap_width widths] at room
  simp only [List.length_append, Bytes.length_ofUInt32, List.length_map] at room bytes children
  have count := counted.uint32At_eq (by omega)
  refine ⟨.sparse count (reaches_of_le small (by omega)), .sparse edges.length (tableAt + 4), ?_,
    fun node shape => ?_⟩
  · rw [readTable, count]
    rfl
  · simp only [TrieNode.edges, shape]
    refine mapM_range_eq fun k inside => ?_
    have child := fit.children edges[k] (List.getElem_mem inside)
    have stored := (children.flatMap widths inside).uint32At_eq (Nat.lt_of_lt_of_le child (by decide))
    rw [← Nat.add_assoc] at stored
    rw [bytes.byteAt_getElem (by simpa using inside), ok_bind, stored, ok_bind, List.getElem_map]
    rfl

theorem tabled_dense (fit : Edges.Fit edges) (small : nodes.size < 2 ^ 32) {first : UInt8}
    {span : Nat} (limit : first.toNat + span ≤ 256)
    (window : ∀ edge ∈ edges, first ≤ edge.byte ∧ edge.byte.toNat < first.toNat + span)
    (has : nodes.Has tableAt (first :: Bytes.ofUInt32 span ++
      (List.range span).flatMap fun k => denseSlot edges (first + UInt8.ofNat k))) :
    Tabled nodes 3 tableAt edges := by
  obtain ⟨front, slots⟩ := has.append
  have least := front.byteAt_eq
  have spanned := front.tail.uint32At_eq (by omega)
  have widths : ∀ k ∈ List.range span,
      (denseSlot edges (first + UInt8.ofNat k)).length = 4 := fun _ _ => by
    rw [denseSlot_eq, Bytes.length_ofUInt32]
  have room := slots.inside
  rw [Bytes.length_flatMap_width widths] at room
  simp only [List.length_cons, Bytes.length_ofUInt32, List.length_range] at room slots
  refine ⟨.dense least spanned limit (reaches_of_le small (by omega)),
    .dense first span (tableAt + 5), ?_, fun node shape => ?_⟩
  · rw [readTable, least, ok_bind, spanned]
    rfl
  · simp only [TrieNode.edges, shape]
    rw [← edges_of_slots fit limit window]
    refine filterMapM_eq_ok fun k inside => ?_
    have inside := List.mem_range.mp inside
    have stored := slots.flatMap widths (by simpa using inside)
    rw [List.getElem_range, denseSlot_eq] at stored
    have below : slotOf edges (first + UInt8.ofNat k) < 2 ^ 32 :=
      slotOf_lt (fun edge inside => Nat.lt_succ_of_lt (fit.children edge inside)) _
    rw [stored.uint32At_eq below, ok_bind, addBytes_slot limit inside, slotEdge?]
    split <;> rfl

/-- The written table of these edges. -/
theorem tabled_written (fit : Edges.Fit edges) (small : nodes.size < 2 ^ 32)
    (has : nodes.Has tableAt (edgeTableBytes edges).2) :
    Tabled nodes (edgeTableBytes edges).1.toNat tableAt edges := by
  match edges with
  | [] =>
    exact ⟨.leaf (by decide), .leaf, rfl, fun node shape => by simp [TrieNode.edges, shape]⟩
  | [edge] =>
    have child := fit.children edge List.mem_cons_self
    have byte := has.byteAt_eq
    have stored := has.tail.uint32At_eq (Nat.lt_of_lt_of_le child (by decide))
    have room := has.inside
    simp only [edgeTableBytes, List.length_cons, Bytes.length_ofUInt32] at room
    refine ⟨.single (reaches_of_le small room), .single edge.byte edge.child, ?_, fun node shape => by
      simp [TrieNode.edges, shape]⟩
    rw [edgeTableBytes, UInt8.toNat_one, readTable, byte, ok_bind, stored]
    rfl
  | first :: second :: rest =>
    obtain ⟨limit, window⟩ := edgeSpan_covers fit.ascending
    unfold edgeTableBytes at has ⊢
    simp only at has ⊢
    split at has
    · rename_i shorter
      rw [if_pos shorter]
      exact tabled_dense fit small limit window has
    · rename_i longer
      rw [if_neg longer]
      exact tabled_sparse fit small has

theorem edgeTableBytes_shape (edges : List Edge) : (edgeTableBytes edges).1 ∈ [0, 1, 2, 3] := by
  match edges with
  | [] => simp [edgeTableBytes]
  | [_] => simp [edgeTableBytes]
  | first :: second :: rest =>
    unfold edgeTableBytes
    simp only
    split <;> simp

theorem flags_parts {shape : UInt8} (known : shape ∈ [0, 1, 2, 3]) (hasValue bare : Bool) :
    let flags := shape <<< 2 ||| (if hasValue then valueFlag else 0) |||
      (if bare then 0 else labelFlag)
    flags &&& unusedFlags = 0 ∧ (flags &&& labelFlag = 0 ↔ bare = true) ∧ flags >>> 2 = shape ∧
      decide (flags &&& valueFlag ≠ 0) = hasValue := by
  obtain rfl | rfl | rfl | rfl : shape = 0 ∨ shape = 1 ∨ shape = 2 ∨ shape = 3 := by
    simpa only [List.mem_cons, List.not_mem_nil, or_false] using known
  all_goals
    clear known
    revert hasValue bare
    decide

/-- Reading a written node gives its parts back. -/
theorem checkedAt_written {offset count : Nat} {label : Bytes} {hasValue : Bool}
    (fit : Edges.Fit edges) (small : nodes.size < 2 ^ 32) (counts : count < 2 ^ 32)
    (has : nodes.Has offset (nodeBytes label hasValue count edges)) :
    ∃ node, checkedAt nodes offset = .ok node ∧ node.hasValue = hasValue ∧ node.count = count ∧
      node.label nodes = .ok label ∧ node.edges nodes = .ok edges := by
  unfold nodeBytes at has
  obtain ⟨known, labelled, shape, ends⟩ :=
    flags_parts (edgeTableBytes_shape edges) hasValue label.isEmpty
  simp only at has known labelled shape ends
  generalize (edgeTableBytes edges).1 <<< 2 ||| (if hasValue then valueFlag else 0) |||
    (if label.isEmpty then 0 else labelFlag) = flags at has known labelled shape ends
  obtain ⟨⟨front, middle⟩, table⟩ := has.append.imp_left View.Has.append
  have read := front.byteAt_eq
  have counted := front.tail.uint32At_eq counts
  have room := front.inside
  simp only [List.length_cons, List.length_append, Bytes.length_ofUInt32] at room middle table
  cases bare : label.isEmpty with
  | true =>
    obtain rfl := List.isEmpty_iff.mp bare
    simp only [List.isEmpty_nil, if_true, List.length_nil, Nat.add_zero] at table
    obtain ⟨fits, edgeTable, reads, gives⟩ := tabled_written fit small table
    rw [← shape] at fits reads
    have head : HeadFits nodes offset flags (offset + 5) 0 :=
      .plain (reaches_of_le small (by omega)) read known (labelled.mpr rfl)
    refine ⟨_, by rw [checkedAt_eq_readAt head fits, readAt_eq head counted reads]; rfl, ends, rfl,
      ?_, gives _ rfl⟩
    exact @View.Has.bytesAt_eq _ _ [] ⟨by simpa using room, rfl⟩
  | false =>
    have measure := middle
    rw [bare, if_neg Bool.false_ne_true, Bytes.counted] at measure
    obtain ⟨length, bytes⟩ := measure.append
    have bound := bytes.inside
    have measured := length.uint32At_eq (by omega)
    rw [bare, if_neg Bool.false_ne_true, Bytes.counted] at table
    simp only [List.length_append, Bytes.length_ofUInt32] at table bytes bound measured
    rw [show offset + (4 + 1 + (4 + label.length)) = offset + 9 + label.length by omega] at table
    obtain ⟨fits, edgeTable, reads, gives⟩ := tabled_written fit small table
    rw [← shape] at fits reads
    have labelFlagged : flags &&& labelFlag ≠ 0 := fun plain => by
      simpa [bare] using labelled.mp plain
    have head : HeadFits nodes offset flags (offset + 9) label.length :=
      .labelled (reaches_of_le small (by omega)) read known labelFlagged measured
    refine ⟨_, by rw [checkedAt_eq_readAt head fits, readAt_eq head counted reads]; rfl, ends, rfl,
      ?_, gives _ rfl⟩
    exact bytes.bytesAt_eq

end TrieNode

mutual

def Trie.Proper : Trie → Prop
  | .node _ hasValue branches => 0 < hasValue.toNat + branches.count ∧ branches.Proper none

/-- The bytes of the branches go up from `last`. -/
def Branches.Proper (last : Option UInt8) : Branches → Prop
  | .nil => True
  | .cons byte child rest =>
    last.any (byte ≤ ·) = false ∧ child.Proper ∧ rest.Proper (some byte)

end

mutual

theorem Trie.length_toList (t : Trie) : t.toList.length = t.count := by
  match t with
  | .node label hasValue branches =>
    rw [Trie.toList, Trie.count, List.length_map, List.length_append, branches.length_toList]
    cases hasValue <;> rfl

theorem Branches.length_toList (b : Branches) : b.toList.length = b.count := by
  match b with
  | .nil => rfl
  | .cons byte child rest =>
    rw [Branches.toList, Branches.count, List.length_append, List.length_map, child.length_toList,
      rest.length_toList]

end

theorem le_length_nodeBytes (edges : List Edge) (label : Bytes) (hasValue : Bool) (count : Nat) :
    5 ≤ (nodeBytes label hasValue count edges).length := by
  simp only [nodeBytes, List.length_append, List.length_cons, Bytes.length_ofUInt32]
  omega

mutual

theorem Trie.count_le_layout (t : Trie) (start : Nat) : t.count ≤ (t.layout start).1.length := by
  match t with
  | .node label hasValue branches =>
    have below := branches.count_le_layout start
    have own := le_length_nodeBytes (branches.layout start).2 label hasValue
      (hasValue.toNat + branches.count)
    have value : hasValue.toNat ≤ 1 := Bool.toNat_le hasValue
    simp only [Trie.count, Trie.layout, List.length_append]
    omega

theorem Branches.count_le_layout (b : Branches) (start : Nat) :
    b.count ≤ (b.layout start).1.length := by
  match b with
  | .nil => exact Nat.zero_le _
  | .cons byte child rest =>
    have := child.count_le_layout start
    have := rest.count_le_layout (start + (child.layout start).1.length)
    simp only [Branches.count, Branches.layout, List.length_append]
    omega

end

theorem Branches.ascending_layout {b : Branches} {last : Option UInt8} (proper : b.Proper last)
    (start : Nat) : (b.layout start).2.Pairwise (·.byte < ·.byte) ∧
      ∀ edge ∈ (b.layout start).2, last.any (edge.byte ≤ ·) = false := by
  match b with
  | .nil => exact ⟨.nil, fun _ inside => absurd inside List.not_mem_nil⟩
  | .cons byte child rest =>
    obtain ⟨above, _, proper⟩ := proper
    obtain ⟨ascending, higher⟩ :=
      ascending_layout proper (start + (child.layout start).1.length)
    have climbs : ∀ edge ∈ (rest.layout (start + (child.layout start).1.length)).2,
        byte < edge.byte := fun edge inside => by simpa using higher edge inside
    refine ⟨List.pairwise_cons.mpr ⟨climbs, ascending⟩, fun edge inside => ?_⟩
    rcases List.mem_cons.mp inside with rfl | later
    · exact above
    · cases last with
      | none => rfl
      | some last =>
        simp only [Option.any_some, decide_eq_false_iff_not, UInt8.not_le] at above ⊢
        exact UInt8.lt_trans above (climbs edge later)

theorem Trie.root_lt (t : Trie) (start : Nat) :
    (t.layout start).2 < start + (t.layout start).1.length := by
  cases t with
  | node label hasValue branches =>
    have own := le_length_nodeBytes (branches.layout start).2 label hasValue
      (hasValue.toNat + branches.count)
    simp only [Trie.layout, List.length_append]
    omega

theorem Branches.child_lt (b : Branches) (start : Nat) :
    ∀ edge ∈ (b.layout start).2, edge.child < start + (b.layout start).1.length := by
  match b with
  | .nil => exact fun _ inside => absurd inside List.not_mem_nil
  | .cons byte child rest =>
    have root := child.root_lt start
    have others := rest.child_lt (start + (child.layout start).1.length)
    intro edge inside
    simp only [Branches.layout, List.length_append] at inside ⊢
    rcases List.mem_cons.mp inside with rfl | later
    · dsimp only
      omega
    · have := others edge later
      omega

open StoredTrie in
mutual

/-- The layout of a tree spells its values. -/
theorem Trie.spells_layout {t : Trie} {start : Nat} (proper : t.Proper)
    (small : nodes.size < 2 ^ 32) (has : nodes.Has start (t.layout start).1) :
    Spells nodes (t.layout start).2 t.toList ∧
      (t.layout start).2 + 5 ≤ start + (t.layout start).1.length := by
  match t with
  | .node label hasValue branches =>
    obtain ⟨holds, proper⟩ := proper
    have counts := (Trie.node label hasValue branches).count_le_layout start
    have own := le_length_nodeBytes (branches.layout start).2 label hasValue
      (hasValue.toNat + branches.count)
    have room := has.inside
    simp only [Trie.count, Trie.layout, List.length_append] at counts has room ⊢
    obtain ⟨below, node⟩ := has.append
    obtain ⟨spelled, before⟩ := Branches.spells_layout proper small below
    obtain ⟨ascending, _⟩ := Branches.ascending_layout proper start
    have fit : Edges.Fit (branches.layout start).2 :=
      ⟨ascending, fun edge inside => by
        have := before edge inside
        have : TrieNode.gap = 2 ^ 32 - 1 := rfl
        omega⟩
    obtain ⟨stored, checked, ends, counted, labelled, listed⟩ :=
      TrieNode.checkedAt_written fit small (by omega) node
    refine ⟨?_, by omega⟩
    have spells := Spells.node checked labelled listed spelled
      (by rw [counted, ends, branches.length_toList]) (by rw [counted]; exact holds)
    rw [ends] at spells
    exact spells

theorem Branches.spells_layout {b : Branches} {start : Nat} {last : Option UInt8}
    (proper : b.Proper last) (small : nodes.size < 2 ^ 32)
    (has : nodes.Has start (b.layout start).1) :
    SpellsAll nodes (start + (b.layout start).1.length) last (b.layout start).2 b.toList ∧
      ∀ edge ∈ (b.layout start).2, edge.child + 5 ≤ start + (b.layout start).1.length := by
  match b with
  | .nil => exact ⟨.nil, fun _ inside => absurd inside List.not_mem_nil⟩
  | .cons byte child rest =>
    obtain ⟨above, properChild, properRest⟩ := proper
    simp only [Branches.layout] at has ⊢
    obtain ⟨front, back⟩ := has.append
    obtain ⟨spelled, bound⟩ := Trie.spells_layout properChild small front
    obtain ⟨others, bounds⟩ := Branches.spells_layout properRest small back
    rw [List.length_append, ← Nat.add_assoc]
    refine ⟨.cons (by simp only; omega) above spelled others, fun edge inside => ?_⟩
    rcases List.mem_cons.mp inside with rfl | later
    · simp only
      omega
    · exact bounds edge later

end

end DocStore
