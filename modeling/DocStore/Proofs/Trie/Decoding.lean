import DocStore.Proofs.Decoders
import DocStore.Proofs.Dictionary.Holding
import DocStore.Proofs.Trie.Ranks

/-! Stored trees that the decoder accepts are ordered dictionaries, whatever bytes they came
from. -/
namespace DocStore

namespace StoredTrie

variable {t : StoredTrie} {values : List Bytes}

def Stands (t : StoredTrie) (values : List Bytes) : Prop :=
  values.length = t.size ∧ (t.size ≠ 0 → Spells t.nodes t.root values)

theorem Stands.ascending (stands : t.Stands values) : values.Pairwise (· < ·) := by
  by_cases empty : t.size = 0
  · rw [List.length_eq_zero_iff.mp (stands.1.trans empty)]
    exact .nil
  · exact (stands.2 empty).ascending

theorem Stands.length_lt (stands : t.Stands values) : values.length < 2 ^ 32 := by
  by_cases empty : t.size = 0
  · rw [stands.1, empty]
    decide
  · exact (stands.2 empty).length_lt

theorem Stands.get_eq (stands : t.Stands values) {rank : Nat} (inside : rank < values.length) :
    t.get rank = .ok values[rank] := by
  have below : rank < t.size := stands.1 ▸ inside
  rw [get, if_pos below]
  exact (stands.2 (by omega)).getBelow_eq (List.getElem?_eq_getElem inside)

theorem Stands.locate_eq (stands : t.Stands values) (value : Bytes) :
    t.locate value = .ok (values.countP (· < value), values.contains value) := by
  unfold locate
  by_cases empty : t.size = 0
  · rw [if_pos empty, List.length_eq_zero_iff.mp (stands.1.trans empty)]
    rfl
  · rw [if_neg empty]
    exact (stands.2 empty).locateBelow_eq value

theorem check_total (t : StoredTrie) :
    (∃ e, t.check = .error (.refused e)) ∨ t.check = .ok () := by
  unfold check
  by_cases empty : t.size = 0
  · exact Or.inr (if_pos empty)
  · rw [if_neg empty]
    rcases TrieNode.checkedAt_total t.nodes t.root with ⟨e, refused⟩ | ⟨node, checked⟩
    · exact Or.inl ⟨e, by rw [refused, error_bind]⟩
    · rw [checked, ok_bind]
      by_cases wrong : node.count ≠ t.size
      · exact Or.inl ⟨_, by simp only [if_pos wrong]; rfl⟩
      · simp only [if_neg wrong]
        exact checkBelow_total t.nodes t.root

theorem stands_of_check (accepted : t.check = .ok ()) : ∃ values, t.Stands values := by
  unfold check at accepted
  by_cases empty : t.size = 0
  · exact ⟨[], empty.symm, absurd empty⟩
  · rw [if_neg empty] at accepted
    obtain ⟨root, checked, accepted⟩ := bind_eq_ok.mp accepted
    by_cases wrong : root.count ≠ t.size
    · simp only [if_pos wrong] at accepted
      contradiction
    · simp only [if_neg wrong] at accepted
      obtain ⟨values, spelled⟩ := spells_of_checkBelow accepted
      have counted := TrieNode.countAt_of_readAt (TrieNode.readAt_of_checkedAt checked).1
      rw [spelled.countAt_eq] at counted
      exact ⟨values, (Except.ok.inj counted).trans (Decidable.not_not.mp wrong), fun _ => spelled⟩

theorem check_of_stands (stands : t.Stands values) : t.check = .ok () := by
  unfold check
  by_cases empty : t.size = 0
  · exact if_pos empty
  · have spelled := stands.2 empty
    obtain ⟨node, checked⟩ : ∃ node, TrieNode.checkedAt t.nodes t.root = .ok node := by
      cases spelled
      exact ⟨_, ‹_›⟩
    have counted := TrieNode.countAt_of_readAt (TrieNode.readAt_of_checkedAt checked).1
    rw [spelled.countAt_eq, stands.1] at counted
    rw [if_neg empty, checked, ok_bind, Except.ok.inj counted]
    simp only [ne_eq, not_true_eq_false, if_false]
    exact checkBelow_of_spells spelled

theorem Stands.holds (stands : t.Stands values) : (Dictionary.trie t).Holds values where
  ascending := stands.ascending
  size := stands.1.symm
  room := lt_sizeLimit stands.length_lt
  get rank inside := stands.get_eq inside
  search value skipEqual start stop _ := by
    have point : values.countP (· < value) + (skipEqual && values.contains value).toNat =
        values.countP (ValueTest.below skipEqual · value) := by
      cases skipEqual with
      | false => simp [ValueTest.below]
      | true => simpa [ValueTest.below] using (countP_le_eq stands.ascending value).symm
    have room := lt_sizeLimit (Nat.lt_of_le_of_lt
      (List.countP_le_length (p := (ValueTest.below skipEqual · value))) stands.length_lt)
    rw [← point] at room ⊢
    simp only [Dictionary.search, stands.locate_eq, ok_bind, addSizes_of_lt room]
    exact clampSize_of_le (Nat.le_max_right _ _) _
  rank? value := by
    simp only [Dictionary.rank?, stands.locate_eq, ok_bind, pure_eq_ok,
      idxOf?_eq_of_ascending stands.ascending]

/-- A stored tree is a lawful ordered dictionary of these values. -/
structure Lawful (t : StoredTrie) (values : List Bytes) : Prop where
  size : values.length = t.size
  ascending : values.Pairwise (· < ·)
  get : ∀ (rank : Nat) (inside : rank < values.length), t.get rank = .ok values[rank]
  locate : ∀ value, t.locate value = .ok (values.countP (· < value), values.contains value)
  rank_of_value : ∀ (rank : Nat) (inside : rank < values.length),
    (Dictionary.trie t).rank? values[rank] = .ok (some rank)
  rank_of_absent : ∀ value, value ∉ values → (Dictionary.trie t).rank? value = .ok none
  lowestAbove : ∀ value orEqual last,
    (Dictionary.trie t).lowestAbove value orEqual last = .ok (firstAbove values value orEqual last)
  highestBelow : ∀ value orEqual first,
    (Dictionary.trie t).highestBelow value orEqual first = .ok (lastBelow values value orEqual first)

theorem Stands.lawful (stands : t.Stands values) : t.Lawful values where
  size := stands.1
  ascending := stands.ascending
  get _ := stands.get_eq
  locate := stands.locate_eq
  rank_of_value rank inside := by
    rw [stands.holds.rank?, idxOf?_getElem stands.ascending inside]
  rank_of_absent value absent := by
    rw [stands.holds.rank?, List.idxOf?_eq_none_iff.mpr absent]
  lowestAbove := stands.holds.lowestAbove_eq
  highestBelow := stands.holds.highestBelow_eq

theorem decode_meets {v : View} {post : StoredTrie → View → Prop}
    {refused : FormatError → View → Prop}
    (read : ∀ t values w, t.Stands values → post t w) (refusal : ∀ e w, refused e w) :
    Meets decode v post refused := by
  unfold decode
  rw [Meets.bind]
  refine Decoder.uint32_meets (fun v₁ _ _ => ?_) (fun _ e => refusal e _)
  rw [Meets.bind]
  refine Decoder.uint32_meets (fun v₂ _ _ => ?_) (fun _ e => refusal e _)
  rw [Meets.bind]
  refine Decoder.uint32_meets (fun v₃ _ _ => ?_) (fun _ e => refusal e _)
  rw [Meets.bind]
  refine Decoder.slice_meets (fun nodes v₄ _ _ _ _ _ => ?_) (fun _ e => refusal e _)
  rw [Meets.bind]
  refine Meets.checked ((check_total _).imp id fun accepted => ⟨(), accepted⟩)
    (fun _ accepted => ?_) (fun e _ => refusal e _)
  obtain ⟨values, stands⟩ := stands_of_check accepted
  exact read _ values v₄ stands

/-- Every tree that the decoder accepts is a lawful ordered dictionary. -/
theorem lawful_of_decode {v w : View} {t : StoredTrie}
    (accepted : decode.runOn v = (.ok t, w)) : ∃ values, t.Lawful values := by
  have meets : Meets decode v (fun t _ => ∃ values, t.Lawful values) fun _ _ => True :=
    decode_meets (fun t values _ stands => ⟨values, stands.lawful⟩) (fun _ _ => trivial)
  exact meets.ok_of_run accepted

/-- Two values whose last nodes are one node: a root with two edges to the same leaf. -/
def sharedLeaf : Bytes :=
  [2, 0, 0, 0] ++ [5, 0, 0, 0] ++ [24, 0, 0, 0] ++ [1, 1, 0, 0, 0] ++
    [8, 2, 0, 0, 0] ++ [2, 0, 0, 0, 97, 98, 0, 0, 0, 0, 0, 0, 0, 0]

theorem lawful_of_decode_sharedLeaf :
    ∃ t w, decode.runOn (View.ofBytes sharedLeaf) = (.ok t, w) ∧ ∃ values, t.Lawful values := by
  have accepted : (decode.runOn (View.ofBytes sharedLeaf)).1.toOption.isSome := by decide +kernel
  cases ran : decode.runOn (View.ofBytes sharedLeaf) with
  | mk answer w =>
    rw [ran] at accepted
    cases answer with
    | error e => contradiction
    | ok t => exact ⟨t, w, rfl, lawful_of_decode ran⟩

end StoredTrie

end DocStore
