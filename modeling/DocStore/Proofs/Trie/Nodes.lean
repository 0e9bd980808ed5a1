import DocStore.Dictionary.Node
import DocStore.Proofs.Views

/-! Nodes of a stored radix tree, with arbitrary bytes in the region. Checking a node refuses it
or establishes that its label and its table lie in the region; reading a checked node and its
edges then meets no fault. -/
namespace DocStore.TrieNode

variable {nodes : View} {offset tableAt labelAt length : Nat} {flags : UInt8}

/-- A region has bytes up to a position, which 64 bits hold. -/
abbrev Reaches (nodes : View) (stop : Nat) : Prop := stop < sizeLimit ∧ stop ≤ nodes.size

inductive HeadFits (nodes : View) (offset : Nat) : UInt8 → Nat → Nat → Prop where
  | plain {flags : UInt8} (inside : Reaches nodes (offset + 5))
      (read : nodes.byteAt offset = .ok flags) (known : flags &&& unusedFlags = 0)
      (plain : flags &&& labelFlag = 0) : HeadFits nodes offset flags (offset + 5) 0
  | labelled {flags : UInt8} {length : Nat} (inside : Reaches nodes (offset + 9 + length))
      (read : nodes.byteAt offset = .ok flags) (known : flags &&& unusedFlags = 0)
      (labelled : flags &&& labelFlag ≠ 0) (measured : nodes.uint32At (offset + 5) = .ok length) :
      HeadFits nodes offset flags (offset + 9) length

theorem HeadFits.reaches (head : HeadFits nodes offset flags labelAt length) :
    Reaches nodes (offset + 5) ∧ Reaches nodes (labelAt + length) := by
  cases head with
  | plain inside _ _ _ => exact ⟨inside, inside⟩
  | labelled inside _ _ _ _ => exact ⟨by omega, inside⟩

inductive TableFits (nodes : View) (tableAt : Nat) : Nat → Prop where
  | leaf {shape : Nat} (other : shape ≠ 1 ∧ shape ≠ 2 ∧ shape ≠ 3) : TableFits nodes tableAt shape
  | single (inside : Reaches nodes (tableAt + 5)) : TableFits nodes tableAt 1
  | sparse {count : Nat} (counted : nodes.uint32At tableAt = .ok count)
      (inside : Reaches nodes (tableAt + 4 + count * 5)) : TableFits nodes tableAt 2
  | dense {first : UInt8} {span : Nat} (least : nodes.byteAt tableAt = .ok first)
      (spanned : nodes.uint32At (tableAt + 1) = .ok span) (bytes : first.toNat + span ≤ 256)
      (inside : Reaches nodes (tableAt + 5 + span * 4)) : TableFits nodes tableAt 3

def Inside (node : TrieNode) (nodes : View) : Prop :=
  node.labelAt + node.labelLength ≤ nodes.size ∧ match node.table with
    | .leaf | .single _ _ => True
    | .sparse count tableAt => tableAt + count * 5 ≤ nodes.size
    | .dense first span tableAt => first.toNat + span ≤ 256 ∧ tableAt + span * 4 ≤ nodes.size

theorem need_eq {position width : Nat} (inside : Reaches nodes (position + width)) :
    need nodes offset position width = .ok () := by
  rw [need, if_pos inside]

theorem need_refused (offset : Nat) {position width : Nat}
    (outside : ¬ Reaches nodes (position + width)) :
    ∃ e, need nodes offset position width = .error (.refused e) := by
  rw [need, if_neg outside]
  exact ⟨_, rfl⟩

theorem checkTable_cases (nodes : View) (offset shape tableAt : Nat) :
    (∃ e, checkTable nodes offset shape tableAt = .error (.refused e)) ∨
      TableFits nodes tableAt shape := by
  unfold checkTable
  split
  · by_cases inside : Reaches nodes (tableAt + 5)
    · exact Or.inr (.single inside)
    · exact Or.inl (need_refused offset inside)
  · by_cases room : Reaches nodes (tableAt + 4)
    · obtain ⟨count, counted, _⟩ := View.uint32At_exists room.2
      rw [need_eq room, ok_bind, counted, lift_ok, ok_bind]
      by_cases inside : Reaches nodes (tableAt + 4 + count * 5)
      · exact Or.inr (.sparse counted inside)
      · exact Or.inl (need_refused offset inside)
    · obtain ⟨e, refused⟩ := need_refused offset room
      exact Or.inl ⟨e, by rw [refused, error_bind]⟩
  · by_cases room : Reaches nodes (tableAt + 5)
    · obtain ⟨first, least⟩ := View.byteAt_exists (show tableAt < nodes.size by omega)
      obtain ⟨span, spanned, _⟩ := View.uint32At_exists (show tableAt + 1 + 4 ≤ nodes.size by omega)
      rw [need_eq room, ok_bind, least, lift_ok, ok_bind, spanned, lift_ok, ok_bind]
      by_cases bytes : first.toNat + span > 256
      · exact Or.inl ⟨_, by rw [if_pos bytes, refuse_eq]⟩
      · rw [if_neg bytes]
        by_cases inside : Reaches nodes (tableAt + 5 + span * 4)
        · exact Or.inr (.dense least spanned (Nat.le_of_not_lt bytes) inside)
        · exact Or.inl (need_refused offset inside)
    · obtain ⟨e, refused⟩ := need_refused offset room
      exact Or.inl ⟨e, by rw [refused, error_bind]⟩
  · exact Or.inr (.leaf ⟨‹_›, ‹_›, ‹_›⟩)

theorem checkTable_eq {shape : Nat} (fits : TableFits nodes tableAt shape) :
    checkTable nodes offset shape tableAt = .ok () := by
  cases fits with
  | leaf other =>
    unfold checkTable
    split
    · exact absurd rfl other.1
    · exact absurd rfl other.2.1
    · exact absurd rfl other.2.2
    · rfl
  | single inside => exact need_eq inside
  | sparse counted inside =>
    simp only [checkTable, need_eq (show Reaches nodes (tableAt + 4) by omega), counted, lift_ok,
      ok_bind, need_eq inside]
  | dense least spanned bytes inside =>
    simp only [checkTable, need_eq (show Reaches nodes (tableAt + 5) by omega), least, spanned,
      lift_ok, ok_bind, if_neg (Nat.not_lt_of_le bytes), need_eq inside]

theorem checkedLabel_cases (room : Reaches nodes (offset + 5))
    (read : nodes.byteAt offset = .ok flags) (known : flags &&& unusedFlags = 0) :
    (∃ e, checkedLabel nodes offset flags = .error (.refused e)) ∨
      ∃ labelAt length, checkedLabel nodes offset flags = .ok (labelAt + length) ∧
        HeadFits nodes offset flags labelAt length := by
  unfold checkedLabel
  by_cases plain : flags &&& labelFlag = 0
  · rw [if_neg (not_not_intro plain)]
    exact Or.inr ⟨offset + 5, 0, rfl, .plain room read known plain⟩
  · rw [if_pos plain]
    by_cases more : Reaches nodes (offset + 5 + 4)
    · obtain ⟨length, measured, _⟩ := View.uint32At_exists more.2
      rw [need_eq more, ok_bind, measured, lift_ok, ok_bind]
      by_cases inside : Reaches nodes (offset + 9 + length)
      · rw [need_eq inside, ok_bind]
        exact Or.inr ⟨_, _, rfl, .labelled inside read known plain measured⟩
      · obtain ⟨e, refused⟩ := need_refused offset inside
        exact Or.inl ⟨e, by rw [refused, error_bind]⟩
    · obtain ⟨e, refused⟩ := need_refused offset more
      exact Or.inl ⟨e, by rw [refused, error_bind]⟩

/-- Checking a node refuses it, or its head and its table lie in the region. -/
theorem checkedAt_cases (nodes : View) (offset : Nat) :
    (∃ e, checkedAt nodes offset = .error (.refused e)) ∨
      ∃ flags labelAt length, HeadFits nodes offset flags labelAt length ∧
        TableFits nodes (labelAt + length) (flags >>> 2).toNat := by
  unfold checkedAt
  by_cases room : Reaches nodes (offset + 5)
  · obtain ⟨flags, read⟩ := View.byteAt_exists (show offset < nodes.size by omega)
    rw [need_eq room, ok_bind, read, lift_ok, ok_bind]
    by_cases known : flags &&& unusedFlags = 0
    · rw [if_neg (not_not_intro known)]
      rcases checkedLabel_cases room read known with ⟨e, refused⟩ | ⟨labelAt, length, labelled, head⟩
      · exact Or.inl ⟨e, by rw [refused, error_bind]⟩
      · rw [labelled, ok_bind]
        rcases checkTable_cases nodes offset (flags >>> 2).toNat (labelAt + length) with
          ⟨e, refused⟩ | table
        · exact Or.inl ⟨e, by rw [refused, error_bind]⟩
        · exact Or.inr ⟨flags, labelAt, length, head, table⟩
    · exact Or.inl ⟨_, by rw [if_pos known, refuse_eq]⟩
  · obtain ⟨e, refused⟩ := need_refused offset room
    exact Or.inl ⟨e, by rw [refused, error_bind]⟩

theorem checkedAt_eq_readAt (head : HeadFits nodes offset flags labelAt length)
    (table : TableFits nodes (labelAt + length) (flags >>> 2).toNat) :
    checkedAt nodes offset = liftM (readAt nodes offset) := by
  cases head with
  | plain inside read known plain =>
    simp only [checkedAt, need_eq inside, read, known, checkedLabel, plain, lift_ok, ok_bind,
      ne_eq, not_true_eq_false, if_false, pure_eq_ok, checkTable_eq table]
  | labelled inside read known labelled measured =>
    simp only [checkedAt, need_eq (show Reaches nodes (offset + 5) by omega), read, known,
      checkedLabel, labelled, need_eq (show Reaches nodes (offset + 5 + 4) by omega), measured,
      need_eq inside, lift_ok, ok_bind, ne_eq, not_true_eq_false, not_false_eq_true, if_true,
      if_false, pure_eq_ok, checkTable_eq table]

theorem readTable_of_fits {shape : Nat} (fits : TableFits nodes tableAt shape) :
    ∃ table, readTable nodes shape tableAt = .ok table ∧ match table with
      | .leaf | .single _ _ => True
      | .sparse count tableAt => tableAt + count * 5 ≤ nodes.size
      | .dense first span tableAt => first.toNat + span ≤ 256 ∧ tableAt + span * 4 ≤ nodes.size := by
  cases fits with
  | leaf other =>
    unfold readTable
    split
    · exact absurd rfl other.1
    · exact absurd rfl other.2.1
    · exact absurd rfl other.2.2
    · exact ⟨.leaf, rfl, trivial⟩
  | single inside =>
    obtain ⟨byte, least⟩ := View.byteAt_exists (show tableAt < nodes.size by omega)
    obtain ⟨child, leads, _⟩ := View.uint32At_exists (show tableAt + 1 + 4 ≤ nodes.size by omega)
    exact ⟨.single byte child, by simp [readTable, least, leads], trivial⟩
  | @sparse count counted inside =>
    exact ⟨.sparse count (tableAt + 4), by simp [readTable, counted], inside.2⟩
  | @dense first span least spanned bytes inside =>
    exact ⟨.dense first span (tableAt + 5), by simp [readTable, least, spanned], bytes, inside.2⟩

theorem readAt_eq {count : Nat} {table : EdgeTable}
    (head : HeadFits nodes offset flags labelAt length)
    (counted : nodes.uint32At (offset + 1) = .ok count)
    (read : readTable nodes (flags >>> 2).toNat (labelAt + length) = .ok table) :
    readAt nodes offset =
      .ok ⟨decide (flags &&& valueFlag ≠ 0), count, labelAt, length, table⟩ := by
  have sum := addSizes_of_lt head.reaches.2.1
  cases head with
  | plain room first known plain =>
    simp only [readAt, first, counted, plain, ne_eq, not_true_eq_false, if_false, ok_bind,
      pure_eq_ok, sum, read]
  | labelled room first known labelled measured =>
    simp only [readAt, first, counted, labelled, ne_eq, not_false_eq_true, if_true, ok_bind,
      pure_eq_ok, measured, sum, read]

theorem readAt_of_fits (head : HeadFits nodes offset flags labelAt length)
    (table : TableFits nodes (labelAt + length) (flags >>> 2).toNat) :
    ∃ node, readAt nodes offset = .ok node ∧ node.Inside nodes := by
  obtain ⟨edges, read, inside⟩ := readTable_of_fits table
  obtain ⟨room, labelled⟩ := head.reaches
  obtain ⟨count, counted, _⟩ := View.uint32At_exists (show offset + 1 + 4 ≤ nodes.size by omega)
  exact ⟨_, readAt_eq head counted read, labelled.2, inside⟩

theorem readAt_of_checkedAt {node : TrieNode} (checked : checkedAt nodes offset = .ok node) :
    readAt nodes offset = .ok node ∧ node.Inside nodes := by
  rcases checkedAt_cases nodes offset with ⟨e, refused⟩ | ⟨flags, labelAt, length, head, table⟩
  · rw [refused] at checked
    contradiction
  · obtain ⟨read, answer, inside⟩ := readAt_of_fits head table
    rw [checkedAt_eq_readAt head table, answer, lift_ok] at checked
    cases checked
    exact ⟨answer, inside⟩

/-- Checking a node answers the node or refuses it. -/
theorem checkedAt_total (nodes : View) (offset : Nat) :
    (∃ e, checkedAt nodes offset = .error (.refused e)) ∨
      ∃ node, checkedAt nodes offset = .ok node := by
  rcases checkedAt_cases nodes offset with refused | ⟨flags, labelAt, length, head, table⟩
  · exact Or.inl refused
  · obtain ⟨node, answer, _⟩ := readAt_of_fits head table
    exact Or.inr ⟨node, by rw [checkedAt_eq_readAt head table, answer, lift_ok]⟩

theorem countAt_of_readAt {node : TrieNode} (read : readAt nodes offset = .ok node) :
    countAt nodes offset = .ok node.count := by
  simp only [readAt, bind_eq_ok] at read
  obtain ⟨flags, _, count, counted, read⟩ := read
  -- with a label or without one, the count is kept as it was read
  split at read
  all_goals
    obtain ⟨length, _, read⟩ := bind_eq_ok.mp read
    obtain ⟨tableAt, _, read⟩ := bind_eq_ok.mp read
    obtain ⟨table, _, read⟩ := bind_eq_ok.mp read
    cases read
    exact counted

/-- The slots of a dense table that was checked stand for bytes. -/
theorem addBytes_slot {first : UInt8} {span k : Nat} (bytes : first.toNat + span ≤ 256)
    (inside : k < span) : addBytes first (UInt8.ofNat k) = .ok (first + UInt8.ofNat k) := by
  refine addBytes_of_lt ?_
  rw [UInt8.toNat_ofNat']
  omega

theorem label_of_inside {node : TrieNode} (inside : node.Inside nodes) :
    ∃ label, node.label nodes = .ok label :=
  ⟨_, View.bytesAt_eq inside.1⟩

theorem edges_of_inside {node : TrieNode} (inside : node.Inside nodes) :
    ∃ edges, node.edges nodes = .ok edges := by
  obtain ⟨_, inside⟩ := inside
  unfold edges
  cases shape : node.table with
  | leaf => exact ⟨[], rfl⟩
  | single byte child => exact ⟨[⟨byte, child⟩], rfl⟩
  | sparse count tableAt =>
    simp only [shape] at inside
    refine mapM_exists fun k bound => ?_
    have below := List.mem_range.mp bound
    obtain ⟨byte, least⟩ := View.byteAt_exists (show tableAt + k < nodes.size by omega)
    obtain ⟨child, leads, _⟩ :=
      View.uint32At_exists (show tableAt + count + k * 4 + 4 ≤ nodes.size by omega)
    exact ⟨⟨byte, child⟩, by rw [least, ok_bind, leads]; rfl⟩
  | dense first span tableAt =>
    simp only [shape] at inside
    refine filterMapM_exists fun k bound => ?_
    have below := List.mem_range.mp bound
    obtain ⟨child, leads, _⟩ :=
      View.uint32At_exists (show tableAt + k * 4 + 4 ≤ nodes.size by omega)
    rw [leads, ok_bind]
    by_cases empty : child = gap
    · exact ⟨none, if_pos empty⟩
    · exact ⟨some ⟨first + UInt8.ofNat k, child⟩, by
        rw [if_neg empty, addBytes_slot inside.1 below]
        rfl⟩

end DocStore.TrieNode
