import Mathlib.Data.List.Nodup
import DocStore.Proofs.Index.Sort

/-! What a sort index lists when it orders a set. Its ranks and its postings are stored apart, and
an ordering is whole just where both say the same of every document. -/
namespace DocStore

namespace SortIndex

variable {index : SortIndex} {documents : Nat} {truthful : Prop} {rank : Nat → Option Nat}
  {bucket : Nat → List Nat} {docs : DocSet} {direction : Direction}

/-- Ordering a set lists each member once: in the group of its rank, in which members ascend, or
behind all groups. -/
def Orders (index : SortIndex) (direction : Direction) (docs : DocSet) : Prop :=
  ∃ groups rest, index.groups direction docs = .ok groups ∧ index.unrankedOf docs = .ok rest ∧
    (groups.flatMap (·.2) ++ rest).Nodup ∧
    (∀ document, document ∈ groups.flatMap (·.2) ++ rest ↔ docs.contains document = true) ∧
    ∀ group ∈ groups, group.2.Pairwise (· < ·) ∧
      ∀ document ∈ group.2, index.rank? document = .ok (some group.1)

/-- Under each key the postings list just the documents of that rank, ascending. -/
def Coherent (index : SortIndex) (documents : Nat) : Prop :=
  ∀ key, index.postings.documentsOf key (.all documents) =
    (List.range documents).filterM fun document => return (← index.rank? document) = some key

theorem flatMap_walk (rank : Nat → Option Nat) (bound : Nat) (docs : DocSet) :
    (walk rank bound docs).flatMap (·.2) =
      (List.range bound).flatMap fun key => docs.toList.filter (rank · = some key) := by
  unfold walk
  induction List.range bound with
  | nil => rfl
  | cons key rest ih =>
    rw [List.map_cons, List.flatMap_cons, ← ih]
    cases docs.toList.filter (rank · = some key) with
    | nil => rfl
    | cons first others => rfl

theorem mem_walk {bound document : Nat} :
    document ∈ (walk rank bound docs).flatMap (·.2) ↔
      document ∈ docs.toList ∧ ∃ key < bound, rank document = some key := by
  rw [flatMap_walk]
  simp only [List.mem_flatMap, List.mem_range, List.mem_filter, decide_eq_true_eq]
  constructor
  · rintro ⟨key, inside, listed, known⟩
    exact ⟨listed, key, inside, known⟩
  · rintro ⟨listed, key, inside, known⟩
    exact ⟨key, inside, listed, known⟩

theorem nodup_walk (distinct : docs.toList.Nodup) (bound : Nat) :
    ((walk rank bound docs).flatMap (·.2)).Nodup := by
  rw [flatMap_walk, List.nodup_flatMap]
  constructor
  · intro key _
    exact distinct.filter _
  · refine List.nodup_range.imp fun {key other} apart => ?_
    intro document first second
    have left := of_decide_eq_true (List.mem_filter.mp first).2
    have right := of_decide_eq_true (List.mem_filter.mp second).2
    exact apart (Option.some.inj (left.symm.trans right))

/-- A walk over the ranks, in either direction, and behind it the members without a rank. -/
theorem Ranks.orders_of_walk (ranks : index.Ranks documents rank) (within : docs.Within documents)
    (walked : index.groups direction docs =
      .ok (direction.arrange (walk rank index.rankCount docs))) : index.Orders direction docs := by
  have ascending := DocSet.toList_ascending within.legible
  have distinct := nodup_of_ascending ascending
  have perm : ((direction.arrange (walk rank index.rankCount docs)).flatMap (·.2)).Perm
      ((walk rank index.rankCount docs).flatMap (·.2)) := Direction.arrange_perm.flatMap_right _
  refine ⟨_, _, walked, ranks.unrankedOf_eq within, ?_, ?_, ?_⟩
  · refine List.nodup_append.mpr ⟨perm.nodup_iff.mpr (nodup_walk distinct _), distinct.filter _, ?_⟩
    rintro document grouped _ single rfl
    obtain ⟨_, key, _, known⟩ := mem_walk.mp (perm.mem_iff.mp grouped)
    have none := of_decide_eq_true (List.mem_filter.mp single).2
    rw [known] at none
    contradiction
  · intro document
    rw [← DocSet.mem_toList within.legible, List.mem_append, perm.mem_iff, mem_walk,
      List.mem_filter, decide_eq_true_eq, ← and_or_left]
    refine and_iff_left_of_imp fun _ => ?_
    cases known : rank document with
    | none => exact Or.inr rfl
    | some key => exact Or.inl ⟨key, (ranks.below document key known).2, rfl⟩
  · intro group listed
    obtain ⟨listed, _⟩ := List.mem_filter.mp (Direction.arrange_perm.mem_iff.mp listed)
    obtain ⟨key, _, rfl⟩ := List.mem_map.mp listed
    refine ⟨ascending.filter _, fun document member => ?_⟩
    rw [ranks.ranked, of_decide_eq_true (List.mem_filter.mp member).2]

/-- The ranks alone decide what is gathered. -/
theorem Ranks.orders_of_gathers (ranks : index.Ranks documents rank)
    (within : docs.Within documents) (gathers : index.gathers docs = true) :
    index.Orders direction docs := by
  apply ranks.orders_of_walk within
  rw [groups, if_pos gathers, ranks.gather_eq]
  rfl

section Coherent

variable (small : documents + 63 < sizeLimit)
  (lists : index.postings.Lists documents truthful bucket)

include small lists

theorem documentsOf_all (key : Nat) :
    index.postings.documentsOf key (.all documents) = .ok (bucket key) := by
  rw [lists.documentsOf key _ (DocSet.legible_all small), List.filter_eq_self.mpr]
  intro document listed
  exact decide_eq_true (lists.below key document listed)

/-- A walk over all documents has a group for each key that lists any. -/
theorem mem_groups_all (walks : ¬ index.gathers (.all documents) = true)
    {groups : List (Nat × List Nat)}
    (grouped : index.groups .ascending (.all documents) = .ok groups) {key : Nat}
    {members : List Nat} : (key, members) ∈ groups ↔ bucket key = members ∧ members ≠ [] := by
  rw [SortIndex.groups, if_neg walks,
    Postings.groups_of_documents (documentsOf_all small lists)] at grouped
  cases grouped
  simp only [Direction.arrange, List.mem_filter, List.mem_map, List.mem_range, Prod.mk.injEq,
    Bool.not_eq_true', List.isEmpty_eq_false_iff]
  constructor
  · rintro ⟨⟨_, _, rfl, same⟩, some⟩
    exact ⟨same, some⟩
  · rintro ⟨rfl, some⟩
    refine ⟨⟨key, ?_, rfl, rfl⟩, some⟩
    exact Nat.lt_of_not_le fun past => some (lists.occupied key past)

theorem Ranks.coherent_iff (ranks : index.Ranks documents rank) : index.Coherent documents ↔
    ∀ key, bucket key = (List.range documents).filter (rank · = some key) := by
  refine forall_congr' fun key => ?_
  have ranked : ((List.range documents).filterM fun document => do
      return decide ((← index.rank? document) = some key)) =
        .ok ((List.range documents).filter (rank · = some key)) := by
    apply filterM_eq_ok
    intro document _
    rw [ranks.ranked]
    rfl
  rw [ranked, documentsOf_all small lists, Except.ok.injEq]

theorem Ranks.orders_of_coherent (ranks : index.Ranks documents rank)
    (coherent : index.Coherent documents) (within : docs.Within documents) :
    index.Orders direction docs := by
  apply ranks.orders_of_walk within
  apply ranks.groups_eq within
  rw [← funext ((ranks.coherent_iff small lists).mp coherent)]
  exact lists

/-- Where all documents are walked, a whole ordering of them shows what the postings list. -/
theorem Ranks.coherent_of_orders (ranks : index.Ranks documents rank)
    (walks : ¬ index.gathers (.all documents) = true)
    (orders : index.Orders .ascending (.all documents)) : index.Coherent documents := by
  obtain ⟨groups, rest, grouped, single, _, whole, each⟩ := orders
  have listed := @mem_groups_all _ _ _ _ small lists walks _ grouped
  rw [ranks.unrankedOf_eq (DocSet.within_all small), Except.ok.injEq] at single
  apply (ranks.coherent_iff small lists).mpr
  intro key
  apply eq_of_ascending _ (List.pairwise_lt_range.filter _)
  · intro document
    rw [List.mem_filter, List.mem_range, decide_eq_true_eq]
    constructor
    · intro member
      have group := listed.mpr ⟨rfl, List.ne_nil_of_mem member⟩
      have known := (each _ group).2 document member
      rw [ranks.ranked, Except.ok.injEq] at known
      exact ⟨lists.below key document member, known⟩
    · rintro ⟨inside, known⟩
      rcases List.mem_append.mp ((whole document).mpr (decide_eq_true inside)) with member | last
      · obtain ⟨⟨other, members⟩, group, member⟩ := List.mem_flatMap.mp member
        have ranked := (each _ group).2 document member
        rw [ranks.ranked, known, Except.ok.injEq, Option.some.injEq] at ranked
        exact ranked ▸ (listed.mp group).1 ▸ member
      · rw [← single] at last
        have none := of_decide_eq_true (List.mem_filter.mp last).2
        rw [known] at none
        contradiction
  · by_cases empty : bucket key = []
    · rw [empty]
      exact List.Pairwise.nil
    · exact (each _ (listed.mpr ⟨rfl, empty⟩)).1

/-- Every set is ordered whole just where there are so few documents that all sets are gathered,
or where the postings list the documents of each rank. -/
theorem Ranks.orders_iff (ranks : index.Ranks documents rank) :
    (∀ direction (docs : DocSet), docs.Within documents → index.Orders direction docs) ↔
      documents * sparseFactor < index.rankCount ∨ index.Coherent documents := by
  constructor
  · intro orders
    by_cases walks : index.gathers (.all documents) = true
    · exact Or.inl (of_decide_eq_true walks)
    · exact Or.inr (ranks.coherent_of_orders small lists walks
        (orders _ _ (DocSet.within_all small)))
  · rintro (few | coherent) direction docs within
    · apply ranks.orders_of_gathers within
      have bound : docs.cardinality ≤ documents := by
        rw [DocSet.cardinality_eq, within.toList_eq]
        simpa using List.length_filter_le docs.contains (List.range documents)
      exact decide_eq_true (Nat.lt_of_le_of_lt (Nat.mul_le_mul_right _ bound) few)
    · exact ranks.orders_of_coherent small lists coherent within

end Coherent

end SortIndex

end DocStore
