import DocStore.Dictionary.StoredTrie
import DocStore.Proofs.Trie.Nodes

/-! The values that a checked node spells. Nodes may be shared and may overlap: what the check
establishes is an unfolding, and children lying before their parents bound it. -/
namespace DocStore.StoredTrie

open TrieNode

mutual

/-- The node at an offset was checked with all nodes below it and spells these values. -/
inductive Spells (nodes : View) : Nat → List Bytes → Prop where
  | node {offset : Nat} {node : TrieNode} {label : Bytes} {edges : List Edge} {below : List Bytes}
      (checked : checkedAt nodes offset = .ok node) (labelled : node.label nodes = .ok label)
      (listed : node.edges nodes = .ok edges) (spelled : SpellsAll nodes offset none edges below)
      (counted : node.count = node.hasValue.toNat + below.length) (holds : 0 < node.count) :
      Spells nodes offset (((if node.hasValue then [[]] else []) ++ below).map (label ++ ·))

/-- The edges of the node at `parent` go up from `last` and spell these values together. -/
inductive SpellsAll (nodes : View) : Nat → Option UInt8 → List Edge → List Bytes → Prop where
  | nil {parent : Nat} {last : Option UInt8} : SpellsAll nodes parent last [] []
  | cons {parent : Nat} {last : Option UInt8} {edge : Edge} {rest : List Edge}
      {values below : List Bytes} (before : edge.child < parent)
      (above : last.any (edge.byte ≤ ·) = false) (child : Spells nodes edge.child values)
      (others : SpellsAll nodes parent (some edge.byte) rest below) :
      SpellsAll nodes parent last (edge :: rest) (values.map (edge.byte :: ·) ++ below)

end

variable {nodes : View} {offset parent : Nat} {last : Option UInt8} {edges : List Edge}
  {values below : List Bytes}

/-- The most values that edges above a byte can hold: one child for each byte, each with no more
values than 32 bits count. -/
def capacity : Option UInt8 → Nat
  | none => 256 * 2 ^ 32
  | some last => (255 - last.toNat) * 2 ^ 32

/-- Sums of no more values than a node can hold fit. -/
theorem addSizes_of_capacity {a b : Nat} (bound : a + b ≤ capacity last + 1) :
    addSizes a b = .ok (a + b) := by
  refine addSizes_of_lt ?_
  unfold sizeLimit
  cases last with
  | none =>
    simp only [capacity] at bound
    omega
  | some last =>
    simp only [capacity] at bound
    omega

/-- An edge takes no more than its share of the capacity. -/
theorem add_le_capacity {byte : UInt8} {held total : Nat} (above : last.any (byte ≤ ·) = false)
    (small : held < 2 ^ 32) (rest : total ≤ capacity (some byte)) :
    held + total ≤ capacity last := by
  have top := byte.toNat_lt
  cases last with
  | none =>
    simp only [capacity] at rest ⊢
    omega
  | some last =>
    simp only [Option.any_some, decide_eq_false_iff_not, UInt8.not_le] at above
    have higher := UInt8.lt_iff_toNat_lt.mp above
    simp only [capacity] at rest ⊢
    omega

theorem Spells.countAt_eq (spelled : Spells nodes offset values) :
    countAt nodes offset = .ok values.length := by
  cases spelled with
  | @node offset node label edges below checked labelled listed spelled counted holds =>
    rw [countAt_of_readAt (readAt_of_checkedAt checked).1, counted]
    cases node.hasValue <;> simp [Nat.add_comm]

theorem Spells.length_lt (spelled : Spells nodes offset values) : values.length < 2 ^ 32 :=
  View.uint32At_lt spelled.countAt_eq

theorem SpellsAll.length_le (spelled : SpellsAll nodes parent last edges below) :
    below.length ≤ capacity last := by
  induction edges generalizing last below with
  | nil =>
    cases spelled
    exact Nat.zero_le _
  | cons edge rest ih =>
    cases spelled with
    | @cons _ _ _ _ values below before above child others =>
      rw [List.length_append, List.length_map]
      exact add_le_capacity above child.length_lt (ih others)

theorem checkEdges_total (nodes : View) (parent : Nat) (last : Option UInt8) (edges : List Edge) :
    (∃ e, checkEdges nodes parent last edges = .error (.refused e)) ∨
      ∃ children total, checkEdges nodes parent last edges = .ok (children, total) ∧
        total ≤ capacity last := by
  induction edges generalizing last with
  | nil => exact Or.inr ⟨[], 0, rfl, Nat.zero_le _⟩
  | cons edge rest ih =>
    unfold checkEdges
    by_cases before : edge.child < parent
    · rw [dif_pos before]
      cases above : last.any (edge.byte ≤ ·) with
      | true => exact Or.inl ⟨_, rfl⟩
      | false =>
        rcases checkedAt_total nodes edge.child with ⟨e, refused⟩ | ⟨node, checked⟩
        · exact Or.inl ⟨e, by simp [refused]⟩
        · have counted := countAt_of_readAt (readAt_of_checkedAt checked).1
          rcases ih (some edge.byte) with ⟨e, refused⟩ | ⟨children, total, accepted, rest⟩
          · exact Or.inl ⟨e, by simp [checked, counted, refused]⟩
          · have bound := add_le_capacity above (View.uint32At_lt counted) rest
            have sum := addSizes_of_capacity (Nat.le_succ_of_le bound)
            exact Or.inr ⟨⟨edge.child, before⟩ :: children, _,
              by simp [checked, counted, accepted, sum], bound⟩
    · rw [dif_neg before]
      exact Or.inl ⟨_, rfl⟩

theorem spellsAll_of_checkEdges {children : List { child // child < parent }} {total : Nat}
    (accepted : checkEdges nodes parent last edges = .ok (children, total))
    (each : ∀ child ∈ children, ∃ values, Spells nodes child.1 values) :
    ∃ below, SpellsAll nodes parent last edges below ∧ below.length = total := by
  induction edges generalizing last children total with
  | nil =>
    cases accepted
    exact ⟨[], .nil, rfl⟩
  | cons edge rest ih =>
    unfold checkEdges at accepted
    split at accepted
    · rename_i before
      cases above : last.any (edge.byte ≤ ·) with
      | true =>
        rw [above] at accepted
        contradiction
      | false =>
        rw [above] at accepted
        obtain ⟨_, _, accepted⟩ := bind_eq_ok.mp accepted
        obtain ⟨held, counted, accepted⟩ := bind_eq_ok.mp accepted
        obtain ⟨⟨others, total⟩, checked, accepted⟩ := bind_eq_ok.mp accepted
        obtain ⟨sum, added, accepted⟩ := bind_eq_ok.mp accepted
        obtain ⟨_, rfl⟩ := addSizes_eq_ok.mp (lift_eq_ok.mp added)
        cases accepted
        obtain ⟨values, child⟩ := each ⟨edge.child, before⟩ List.mem_cons_self
        obtain ⟨below, spelled, length⟩ :=
          ih checked fun child inside => each child (List.mem_cons_of_mem _ inside)
        refine ⟨_, .cons before above child spelled, ?_⟩
        rw [child.countAt_eq] at counted
        cases counted
        rw [List.length_append, List.length_map, length]
    · contradiction

theorem checkEdges_of_spellsAll (spelled : SpellsAll nodes parent last edges below) :
    ∃ children, checkEdges nodes parent last edges = .ok (children, below.length) ∧
      ∀ child ∈ children, ∃ values, Spells nodes child.1 values := by
  induction edges generalizing last below with
  | nil =>
    cases spelled
    exact ⟨[], rfl, fun _ inside => absurd inside List.not_mem_nil⟩
  | cons edge rest ih =>
    cases spelled with
    | @cons _ _ _ _ values below before above child others =>
      obtain ⟨children, accepted, each⟩ := ih others
      have counted := child.countAt_eq
      have bound := add_le_capacity above child.length_lt others.length_le
      have sum := addSizes_of_capacity (Nat.le_succ_of_le bound)
      obtain ⟨node, checked⟩ : ∃ node, checkedAt nodes edge.child = .ok node := by
        cases child
        exact ⟨_, ‹_›⟩
      refine ⟨⟨edge.child, before⟩ :: children, ?_, ?_⟩
      · rw [checkEdges, dif_pos before, above, checked, counted, accepted]
        simp [sum]
      · exact List.forall_mem_cons.mpr ⟨⟨values, child⟩, each⟩

theorem addSizes_hasValue (hasValue : Bool) {held : Nat} (bound : held ≤ capacity none) :
    addSizes hasValue.toNat held = .ok (hasValue.toNat + held) := by
  have own := Bool.toNat_le hasValue
  have fits : hasValue.toNat + held ≤ capacity none + 1 := by omega
  exact addSizes_of_capacity fits

/-- Checking a node and all below it meets no fault. -/
theorem checkBelow_total (nodes : View) (offset : Nat) :
    (∃ e, checkBelow nodes offset = .error (.refused e)) ∨ checkBelow nodes offset = .ok () := by
  induction offset using Nat.strongRecOn with
  | ind offset ih =>
    rw [checkBelow]
    rcases checkedAt_total nodes offset with ⟨e, refused⟩ | ⟨node, checked⟩
    · exact Or.inl ⟨e, by rw [refused, error_bind]⟩
    · obtain ⟨edges, listed⟩ := edges_of_inside (readAt_of_checkedAt checked).2
      rw [checked, ok_bind, listed, lift_ok, ok_bind]
      rcases checkEdges_total nodes offset none edges with
        ⟨e, refused⟩ | ⟨children, held, accepted, bound⟩
      · exact Or.inl ⟨e, by rw [refused, error_bind]⟩
      · have sum := addSizes_hasValue node.hasValue bound
        rw [accepted, ok_bind]
        simp only [sum, lift_ok, ok_bind]
        by_cases wrong : node.count = 0 ∨ node.hasValue.toNat + held ≠ node.count
        · exact Or.inl ⟨_, by simp only [if_pos wrong]; rfl⟩
        · simp only [if_neg wrong]
          exact forM_total fun child _ => ih child.1 child.2

/-- What an accepted node spells. -/
theorem spells_of_checkBelow (accepted : checkBelow nodes offset = .ok ()) :
    ∃ values, Spells nodes offset values := by
  induction offset using Nat.strongRecOn with
  | ind offset ih =>
    rw [checkBelow] at accepted
    obtain ⟨node, checked, accepted⟩ := bind_eq_ok.mp accepted
    have inside := (readAt_of_checkedAt checked).2
    obtain ⟨label, labelled⟩ := label_of_inside inside
    obtain ⟨edges, listed⟩ := edges_of_inside inside
    rw [listed, lift_ok, ok_bind] at accepted
    obtain ⟨⟨children, held⟩, climbing, accepted⟩ := bind_eq_ok.mp accepted
    obtain ⟨total, added, accepted⟩ := bind_eq_ok.mp accepted
    obtain ⟨_, rfl⟩ := addSizes_eq_ok.mp (lift_eq_ok.mp added)
    by_cases wrong : node.count = 0 ∨ node.hasValue.toNat + held ≠ node.count
    · simp only [if_pos wrong] at accepted
      contradiction
    · simp only [if_neg wrong] at accepted
      have each := forM_eq_ok.mp accepted
      obtain ⟨below, spelled, length⟩ := spellsAll_of_checkEdges climbing fun child inside =>
        ih child.1 child.2 (each child (List.mem_reverse.mpr inside))
      exact ⟨_, .node checked labelled listed spelled (by omega) (by omega)⟩

theorem checkBelow_of_spells (spelled : Spells nodes offset values) :
    checkBelow nodes offset = .ok () := by
  induction offset using Nat.strongRecOn generalizing values with
  | ind offset ih =>
    cases spelled with
    | @node _ node label edges below checked labelled listed spelled counted holds =>
      obtain ⟨children, climbing, each⟩ := checkEdges_of_spellsAll spelled
      have right : ¬ (node.count = 0 ∨ node.hasValue.toNat + below.length ≠ node.count) := by omega
      have sum := addSizes_hasValue node.hasValue spelled.length_le
      rw [checkBelow, checked, ok_bind, listed, lift_ok, ok_bind, climbing, ok_bind]
      simp only [sum, lift_ok, ok_bind, if_neg right]
      refine forM_eq_ok.mpr fun child inside => ?_
      obtain ⟨values, spelled⟩ := each child (List.mem_reverse.mp inside)
      exact ih child.1 child.2 spelled

end DocStore.StoredTrie
