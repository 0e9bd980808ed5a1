import DocStore.Proofs.ByteOrder
import DocStore.Proofs.Trie.Spelling

/-! Counts are ranks. The values that a checked node spells go up strictly, the walk by counts
finds the value of every rank, and the walk by bytes counts the smaller values. -/
namespace DocStore.StoredTrie

open TrieNode

variable {nodes : View} {offset parent : Nat} {last : Option UInt8} {edges : List Edge}
  {values below : List Bytes}

theorem SpellsAll.cons_above (spelled : SpellsAll nodes parent last edges below) :
    ∀ value ∈ below, ∃ byte tail, value = byte :: tail ∧ last.any (byte ≤ ·) = false := by
  induction edges generalizing last below with
  | nil =>
    cases spelled
    exact fun _ inside => absurd inside List.not_mem_nil
  | cons edge rest ih =>
    cases spelled with
    | @cons _ _ _ _ values below before above child others =>
      intro value inside
      rcases List.mem_append.mp inside with here | later
      · obtain ⟨tail, _, rfl⟩ := List.mem_map.mp here
        exact ⟨edge.byte, tail, rfl, above⟩
      · obtain ⟨byte, tail, rfl, higher⟩ := ih others value later
        refine ⟨byte, tail, rfl, ?_⟩
        cases last with
        | none => rfl
        | some last =>
          simp only [Option.any_some, decide_eq_false_iff_not, UInt8.not_le] at above higher ⊢
          exact UInt8.lt_trans above higher

theorem SpellsAll.ascending (spelled : SpellsAll nodes parent last edges below)
    (each : ∀ child < parent, ∀ values, Spells nodes child values → values.Pairwise (· < ·)) :
    below.Pairwise (· < ·) := by
  induction edges generalizing last below with
  | nil =>
    cases spelled
    exact .nil
  | cons edge rest ih =>
    cases spelled with
    | @cons _ _ _ _ values below before above child others =>
      refine List.pairwise_append.mpr ⟨?_, ih others, ?_⟩
      · exact List.pairwise_map.mpr
          ((each edge.child before values child).imp Bytes.cons_lt_cons.mpr)
      · intro first here second later
        obtain ⟨tail, _, rfl⟩ := List.mem_map.mp here
        obtain ⟨byte, tail, rfl, higher⟩ := others.cons_above second later
        simp only [Option.any_some, decide_eq_false_iff_not, UInt8.not_le] at higher
        exact Bytes.cons_lt_cons_of_lt higher

/-- The values below a node go up strictly. -/
theorem Spells.ascending (spelled : Spells nodes offset values) : values.Pairwise (· < ·) := by
  induction offset using Nat.strongRecOn generalizing values with
  | ind offset ih =>
    cases spelled with
    | @node _ node label edges below checked labelled listed spelled counted holds =>
      have branches := spelled.ascending fun child before _ => ih child before
      refine List.pairwise_map.mpr (List.Pairwise.imp Bytes.append_lt_append.mpr ?_)
      cases node.hasValue with
      | false => exact branches
      | true =>
        refine List.pairwise_cons.mpr ⟨fun value inside => ?_, branches⟩
        obtain ⟨byte, tail, rfl, _⟩ := spelled.cons_above value inside
        exact List.nil_lt_cons _ _

/-- The edge of a rank leads to the subtree with its value. -/
theorem SpellsAll.edgeOfRank_eq {rank : Nat} {value : Bytes}
    (spelled : SpellsAll nodes parent last edges below) (ranked : below[rank]? = some value) :
    ∃ edge inner values tail, edgeOfRank nodes edges rank = .ok (some (edge, inner)) ∧
      edge.child < parent ∧ Spells nodes edge.child values ∧ values[inner]? = some tail ∧
      value = edge.byte :: tail := by
  induction edges generalizing last below rank with
  | nil =>
    cases spelled
    simp at ranked
  | cons edge rest ih =>
    cases spelled with
    | @cons _ _ _ _ values below before above child others =>
      rw [edgeOfRank, child.countAt_eq, ok_bind]
      by_cases here : rank < values.length
      · rw [List.getElem?_append_left (by simpa using here), List.getElem?_map] at ranked
        obtain ⟨tail, inner, rfl⟩ := Option.map_eq_some_iff.mp ranked
        exact ⟨edge, rank, values, tail, if_pos here, before, child, inner, rfl⟩
      · rw [List.getElem?_append_right (by simpa using here), List.length_map] at ranked
        rw [if_neg here, subSizes_of_le (Nat.le_of_not_lt here), ok_bind]
        exact ih others ranked

theorem Spells.getBelow_eq {rank : Nat} {value : Bytes} (spelled : Spells nodes offset values)
    (ranked : values[rank]? = some value) : getBelow nodes offset rank = .ok value := by
  induction offset using Nat.strongRecOn generalizing values rank value with
  | ind offset ih =>
    cases spelled with
    | @node _ node label edges below checked labelled listed spelled counted holds =>
      rw [List.getElem?_map] at ranked
      obtain ⟨suffix, ranked, rfl⟩ := Option.map_eq_some_iff.mp ranked
      rw [getBelow, (readAt_of_checkedAt checked).1, ok_bind, labelled, ok_bind]
      by_cases own : node.hasValue = true ∧ rank = 0
      · obtain ⟨ends, rfl⟩ := own
        obtain rfl : [] = suffix := by simpa [ends] using ranked
        rw [if_pos ⟨ends, rfl⟩, List.append_nil]
        rfl
      · have deeper : below[rank - node.hasValue.toNat]? = some suffix := by
          cases ends : node.hasValue with
          | false => simpa [ends] using ranked
          | true =>
            obtain ⟨inner, rfl⟩ : ∃ inner, rank = inner + 1 :=
              Nat.exists_eq_succ_of_ne_zero fun zero => own ⟨ends, zero⟩
            simpa [ends] using ranked
        have later : node.hasValue.toNat ≤ rank := by
          cases ends : node.hasValue with
          | false => exact Nat.zero_le _
          | true => exact Nat.pos_of_ne_zero fun zero => own ⟨ends, zero⟩
        obtain ⟨edge, inner, values, tail, leads, before, child, held, rfl⟩ :=
          spelled.edgeOfRank_eq deeper
        rw [if_neg own, listed, ok_bind, subSizes_of_le later, ok_bind, leads, ok_bind]
        simp only [dif_pos before, ih edge.child before child held, ok_bind]
        rfl

theorem SpellsAll.count_above {byte : UInt8}
    (spelled : SpellsAll nodes parent (some byte) edges below) (tail : Bytes) :
    below.countP (· < byte :: tail) = 0 ∧ below.contains (byte :: tail) = false := by
  have higher : ∀ value ∈ below, byte :: tail < value := fun value inside => by
    obtain ⟨first, rest, rfl, above⟩ := spelled.cons_above value inside
    simp only [Option.any_some, decide_eq_false_iff_not, UInt8.not_le] at above
    exact Bytes.cons_lt_cons_of_lt above
  constructor
  · refine List.countP_eq_zero.mpr fun value inside => ?_
    simpa using List.le_of_lt (higher value inside)
  · rw [List.contains_eq_mem, decide_eq_false_iff_not]
    exact fun inside => List.lt_irrefl _ (higher _ inside)

theorem SpellsAll.count_nil (spelled : SpellsAll nodes parent last edges below) :
    below.countP (· < []) = 0 ∧ below.contains [] = false := by
  constructor
  · exact List.countP_eq_zero.mpr fun value _ => by simp
  · rw [List.contains_eq_mem, decide_eq_false_iff_not]
    intro inside
    obtain ⟨_, _, same, _⟩ := spelled.cons_above [] inside
    contradiction

/-- Where the walk by bytes goes on from a node: what was passed by, and the subtree of the
byte if there is one. -/
theorem SpellsAll.walk (spelled : SpellsAll nodes parent last edges below) (byte : UInt8)
    (tail : Bytes) :
    ∃ passed, (edges.takeWhile (·.byte < byte)).mapM (fun edge => countAt nodes edge.child) =
        .ok passed ∧
      match edges.drop (edges.takeWhile (·.byte < byte)).length with
      | edge :: _ => if edge.byte = byte then
          ∃ values, edge.child < parent ∧ Spells nodes edge.child values ∧
            below.countP (· < byte :: tail) = passed.sum + values.countP (· < tail) ∧
            below.contains (byte :: tail) = values.contains tail
        else below.countP (· < byte :: tail) = passed.sum ∧ below.contains (byte :: tail) = false
      | [] => below.countP (· < byte :: tail) = passed.sum ∧ below.contains (byte :: tail) = false := by
  induction edges generalizing last below with
  | nil =>
    cases spelled
    exact ⟨[], rfl, rfl, rfl⟩
  | cons edge rest ih =>
    cases spelled with
    | @cons _ _ _ _ values below before above child others =>
      by_cases lower : edge.byte < byte
      · obtain ⟨passed, counted, goes⟩ := ih others
        refine ⟨values.length :: passed, ?_, ?_⟩
        · rw [List.takeWhile_cons_of_pos (by simpa using lower), List.mapM_cons, child.countAt_eq,
            ok_bind, counted]
          rfl
        · rw [List.takeWhile_cons_of_pos (by simpa using lower), List.length_cons,
            List.drop_succ_cons, List.countP_append, Bytes.countP_map_cons_of_lt lower,
            List.contains_append, Bytes.contains_map_cons_of_ne (UInt8.ne_of_lt lower)]
          simpa only [List.sum_cons, Nat.add_assoc, Nat.add_left_cancel_iff, Bool.false_or] using goes
      · rw [List.takeWhile_cons_of_neg (by simpa using lower)]
        refine ⟨[], rfl, ?_⟩
        simp only [List.length_nil, List.drop_zero, List.sum_nil, Nat.zero_add]
        by_cases same : edge.byte = byte
        · subst same
          obtain ⟨zero, absent⟩ := others.count_above tail
          rw [if_pos rfl, List.countP_append, Bytes.countP_map_cons, zero, List.contains_append,
            Bytes.contains_map_cons, absent, Bool.or_false]
          exact ⟨values, before, child, rfl, rfl⟩
        · have higher : byte < edge.byte :=
            (UInt8.lt_or_lt_of_ne same).resolve_left lower
          have spelled : SpellsAll nodes parent (some byte) (edge :: rest) _ :=
            .cons before (by simpa using higher) child others
          rw [if_neg same]
          exact spelled.count_above tail

section Own

variable (ends : Bool) (byte : UInt8) (tail : Bytes)

theorem length_own : (if ends then [[]] else [] : List Bytes).length = ends.toNat := by
  cases ends <;> rfl

theorem countP_own : (if ends then [[]] else []).countP (· < byte :: tail) = ends.toNat := by
  cases ends <;> simp

theorem contains_own : (if ends then [[]] else []).contains (byte :: tail) = false := by
  cases ends <;> rfl

end Own

/-- The walk by bytes counts the smaller values and finds the value itself. -/
theorem Spells.locateBelow_eq (spelled : Spells nodes offset values) (rest : Bytes) :
    locateBelow nodes offset rest = .ok (values.countP (· < rest), values.contains rest) := by
  induction offset using Nat.strongRecOn generalizing values rest with
  | ind offset ih =>
    have small := spelled.length_lt
    cases spelled with
    | @node _ node label edges below checked labelled listed spelled counted holds =>
      rw [List.length_map, List.length_append, length_own] at small
      rw [locateBelow, (readAt_of_checkedAt checked).1, ok_bind, labelled, ok_bind]
      cases starts : label.isPrefixOf rest with
      | true =>
        obtain ⟨suffix, rfl⟩ := List.isPrefixOf_iff_prefix.mp starts
        rw [if_pos rfl, List.drop_left, Bytes.countP_map_append, Bytes.contains_map_append,
          List.countP_append, List.contains_append]
        cases suffix with
        | nil =>
          obtain ⟨least, absent⟩ := spelled.count_nil
          rw [least, absent]
          cases node.hasValue <;> rfl
        | cons byte tail =>
          obtain ⟨passed, passing, goes⟩ := spelled.walk byte tail
          have room : node.hasValue.toNat + below.countP (· < byte :: tail) < sizeLimit :=
            lt_sizeLimit (Nat.lt_of_le_of_lt (Nat.add_le_add_left List.countP_le_length _) small)
          simp only [listed, ok_bind, passing, countP_own, contains_own, Bool.false_or]
          cases reached : edges.drop (edges.takeWhile (·.byte < byte)).length with
          | nil =>
            simp only [reached] at goes
            rw [goes.1] at room ⊢
            rw [goes.2, foldlM_addSizes room]
            rfl
          | cons edge others =>
            simp only [reached] at goes
            by_cases same : edge.byte = byte
            · rw [if_pos same] at goes
              obtain ⟨values, before, child, smaller, found⟩ := goes
              rw [smaller, ← Nat.add_assoc] at room ⊢
              simp only [if_pos same, dif_pos before, ih edge.child before child tail, ok_bind,
                foldlM_addSizes (Nat.lt_of_le_of_lt (Nat.le_add_right _ _) room),
                addSizes_of_lt room, found]
              rfl
            · rw [if_neg same] at goes
              rw [goes.1] at room ⊢
              simp only [if_neg same, foldlM_addSizes room, ok_bind, goes.2]
              rfl
      | false =>
        rw [Bytes.countP_map_append_apart starts, Bytes.contains_map_append_apart starts,
          List.length_append, length_own, ← counted, if_neg Bool.false_ne_true]
        split <;> rfl

end DocStore.StoredTrie
