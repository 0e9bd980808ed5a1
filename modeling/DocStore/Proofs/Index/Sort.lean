import DocStore.Index.Sort
import DocStore.Proofs.Dictionary.Holding
import DocStore.Proofs.Keyed
import DocStore.Proofs.Postings.Listing

/-! Groups of a sort index. Whatever is stored, a group lists members of the set it was asked
for; when postings and ranks agree, gathering and walking list the same groups. -/
namespace DocStore

section SortedByKey

variable {pairs : List (Nat × Nat)}

theorem filter_append_filter_not {passes : Nat × Nat → Bool}
    (closed : pairs.Pairwise fun a b => passes b → passes a) :
    pairs.filter passes ++ pairs.filter (!passes ·) = pairs := by
  induction pairs with
  | nil => rfl
  | cons first rest ih =>
    obtain ⟨before, closed⟩ := List.pairwise_cons.mp closed
    cases known : passes first with
    | true => simp [known, ih closed]
    | false =>
      have none : ∀ pair ∈ rest, ¬ passes pair := fun pair later passed => by
        simp [before pair later passed] at known
      have all : ∀ pair ∈ rest, (!passes pair) = true := fun pair later => by
        simpa using none pair later
      simp only [List.filter_cons, known, List.filter_eq_nil_iff.mpr none,
        List.filter_eq_self.mpr all]
      rfl

/-- Pairs in the order of their keys are the pairs of each key, one key after the other. -/
theorem eq_flatMap_filter {bound : Nat} (sorted : pairs.Pairwise fun a b => a.1 ≤ b.1)
    (below : ∀ pair ∈ pairs, pair.1 < bound) :
    pairs = (List.range bound).flatMap fun key => pairs.filter (·.1 = key) := by
  induction bound generalizing pairs with
  | zero =>
    cases pairs with
    | nil => rfl
    | cons first rest => exact absurd (below first List.mem_cons_self) (Nat.not_lt_zero _)
  | succ bound ih =>
    have split := @filter_append_filter_not pairs (fun pair => pair.1 < bound)
      (sorted.imp fun order => by simpa using Nat.lt_of_le_of_lt order)
    have front := ih (sorted.filter (·.1 < bound)) fun pair inside => by
      simpa using (List.mem_filter.mp inside).2
    rw [List.range_succ, List.flatMap_append, List.flatMap_singleton]
    conv => lhs; rw [← split, front]
    congr 1
    · rw [List.flatMap_def, List.flatMap_def]
      refine congrArg List.flatten (List.map_congr_left fun key inside => ?_)
      have inside := List.mem_range.mp inside
      rw [List.filter_filter]
      refine List.filter_congr fun pair _ => ?_
      simp only [Bool.and_eq_left_iff_imp, decide_eq_true_eq]
      omega
    · refine List.filter_congr fun pair inside => ?_
      have := below pair inside
      simp only [← decide_not, decide_eq_decide]
      omega

end SortedByKey

namespace Direction

variable {α β : Type} {direction : Direction} {items : List α}

theorem arrange_map (f : α → β) : direction.arrange (items.map f) = (direction.arrange items).map f := by
  cases direction with
  | ascending => rfl
  | descending => exact List.map_reverse.symm

theorem arrange_filter (passes : α → Bool) :
    direction.arrange (items.filter passes) = (direction.arrange items).filter passes := by
  cases direction with
  | ascending => rfl
  | descending => exact List.filter_reverse.symm

theorem arrange_perm : (direction.arrange items).Perm items := by
  cases direction with
  | ascending => exact .refl _
  | descending => exact List.reverse_perm _

end Direction

theorem Postings.groups_of_documents {p : Postings} {filter : DocSet} {listed : Nat → List Nat}
    (answers : ∀ key, p.documentsOf key filter = .ok (listed key)) (direction : Direction) :
    p.groups direction filter = .ok (direction.arrange (((List.range p.occupiedKeys).map fun key =>
      (key, listed key)).filter (!·.2.isEmpty))) := by
  rw [groups, mapM_eq_ok (g := fun key => (key, listed key)), Direction.arrange_filter,
    Direction.arrange_map]
  · rfl
  · intro key _
    simp only [answers, ok_bind, pure_eq_ok]

theorem Postings.groups_eq {p : Postings} {documents : Nat} {truthful : Prop}
    {bucket : Nat → List Nat} {filter : DocSet} (lists : p.Lists documents truthful bucket)
    (legible : filter.Legible) (direction : Direction) :
    p.groups direction filter = .ok (direction.arrange (((List.range p.occupiedKeys).map fun key =>
      (key, (bucket key).filter filter.contains)).filter (!·.2.isEmpty))) :=
  groups_of_documents (fun key => lists.documentsOf key filter legible) direction

namespace SortIndex

theorem mem_of_groupNeighbours {pairs : List (Nat × Nat)} {group : Nat × List Nat} {i : Nat}
    (listed : group ∈ groupNeighbours pairs) (member : i ∈ group.2) : (group.1, i) ∈ pairs := by
  induction pairs generalizing group with
  | nil => exact absurd listed List.not_mem_nil
  | cons first rest ih =>
    obtain ⟨rank, document⟩ := first
    rw [groupNeighbours] at listed
    split at listed
    · rename_i next members groups known
      split at listed
      · rename_i same
        subst same
        rcases List.mem_cons.mp listed with rfl | later
        · rcases List.mem_cons.mp member with rfl | earlier
          · exact List.mem_cons_self
          · exact List.mem_cons_of_mem _
              (@ih (rank, members) (known ▸ List.mem_cons_self) earlier)
        · exact List.mem_cons_of_mem _ (ih (known ▸ List.mem_cons_of_mem _ later) member)
      · rcases List.mem_cons.mp listed with rfl | later
        · rw [List.mem_singleton.mp member]
          exact List.mem_cons_self
        · exact List.mem_cons_of_mem _ (ih (known ▸ later) member)
    · rw [List.mem_singleton.mp listed] at member ⊢
      rw [List.mem_singleton.mp member]
      exact List.mem_cons_self

theorem groupNeighbours_append {key : Nat} {members : List Nat} {rest : List (Nat × Nat)}
    (apart : ∀ group ∈ groupNeighbours rest, group.1 ≠ key) :
    groupNeighbours (members.map (key, ·) ++ rest) =
      [(key, members)].filter (!·.2.isEmpty) ++ groupNeighbours rest := by
  induction members with
  | nil => rfl
  | cons first others ih =>
    rw [List.map_cons, List.cons_append, groupNeighbours, ih]
    cases others with
    | cons second more => exact if_pos rfl
    | nil =>
      rw [List.filter_cons_of_neg (by simp), List.filter_nil, List.nil_append]
      cases known : groupNeighbours rest with
      | nil => rfl
      | cons next groups =>
        have other := apart next (known ▸ List.mem_cons_self)
        simp only [if_neg (Ne.symm other)]
        rfl

theorem groupNeighbours_flatMap {keys : List Nat} (distinct : keys.Nodup)
    (bucket : Nat → List Nat) :
    groupNeighbours (keys.flatMap fun key => (bucket key).map (key, ·)) =
      (keys.map fun key => (key, bucket key)).filter (!·.2.isEmpty) := by
  induction keys with
  | nil => rfl
  | cons key rest ih =>
    obtain ⟨new, distinct⟩ := List.nodup_cons.mp distinct
    rw [List.flatMap_cons, groupNeighbours_append, ih distinct, List.map_cons, ← List.filter_append]
    · rfl
    · rw [ih distinct]
      rintro group listed rfl
      obtain ⟨listed, _⟩ := List.mem_filter.mp listed
      obtain ⟨other, inside, rfl⟩ := List.mem_map.mp listed
      exact new inside

variable {index : SortIndex} {documents : Nat} {truthful : Prop} {rank : Nat → Option Nat}
  {bucket : Nat → List Nat} {docs : DocSet}

def walk (rank : Nat → Option Nat) (bound : Nat) (docs : DocSet) : List (Nat × List Nat) :=
  ((List.range bound).map fun key =>
    (key, docs.toList.filter (rank · = some key))).filter (!·.2.isEmpty)

section Gathering

theorem filterMap_ranked (listed : List Nat) (key : Nat) :
    (listed.filterMap fun document => (rank document).map (·, document)).filter (·.1 = key) =
      (listed.filter (rank · = some key)).map (key, ·) := by
  induction listed with
  | nil => rfl
  | cons document rest ih =>
    cases known : rank document with
    | none => simp [known, ih]
    | some own => by_cases same : own = key <;> simp [known, ih, same]

variable (ranked : ∀ document, index.rank? document = .ok (rank document))

include ranked

theorem gather_eq : index.gather docs = .ok (groupNeighbours
    ((docs.toList.filterMap fun document => (rank document).map (·, document)).mergeSort
      fun a b => a.1 ≤ b.1)) := by
  rw [gather, filterMapM_eq_ok (g := fun document => (rank document).map (·, document))]
  · rfl
  · intro document _
    rw [ranked document]
    rfl

theorem gather_eq_walk {bound : Nat}
    (below : ∀ document key, rank document = some key → key < bound) :
    index.gather docs = .ok (walk rank bound docs) := by
  rw [gather_eq ranked, @eq_flatMap_filter _ bound (pairwise_mergeSort_fst _)]
  · simp only [filter_mergeSort_fst, filterMap_ranked]
    exact congrArg Except.ok (groupNeighbours_flatMap List.nodup_range _)
  · intro pair inside
    obtain ⟨document, _, known⟩ := List.mem_filterMap.mp (List.mem_mergeSort.mp inside)
    obtain ⟨key, found, rfl⟩ := Option.map_eq_some_iff.mp known
    exact below document key found

theorem unrankedOf_eq : index.unrankedOf docs =
    .ok (if index.unranked = 0 then [] else docs.toList.filter (rank · = none)) := by
  rw [unrankedOf]
  split
  · rfl
  · rw [filterM_eq_ok (p := (rank · = none))]
    intro document _
    rw [ranked document]
    cases rank document <;> rfl

end Gathering

structure Safe (index : SortIndex) : Prop where
  groups : ∀ direction docs, DocSet.Readable docs → ∃ groups,
    index.groups direction docs = .ok groups ∧
      ∀ group ∈ groups, ∀ i ∈ group.2, docs.contains i = true
  unrankedOf : ∀ docs, DocSet.Readable docs → ∃ listed, index.unrankedOf docs = .ok listed ∧
    ∀ i ∈ listed, docs.contains i = true

theorem safe_of_ranked (ranked : ∀ document, index.rank? document = .ok (rank document))
    (lists : index.postings.Lists documents truthful bucket) : index.Safe where
  groups direction docs readable := by
    unfold groups
    split
    · rw [gather_eq ranked]
      refine ⟨_, rfl, fun group listed i member => ?_⟩
      have pair := mem_of_groupNeighbours (Direction.arrange_perm.mem_iff.mp listed) member
      obtain ⟨document, inside, known⟩ := List.mem_filterMap.mp (List.mem_mergeSort.mp pair)
      obtain ⟨_, _, same⟩ := Option.map_eq_some_iff.mp known
      rw [← (Prod.mk.inj same).2]
      exact (DocSet.mem_toList readable.legible).mp inside
    · rw [Postings.groups_eq lists readable.legible]
      refine ⟨_, rfl, fun group listed i member => ?_⟩
      obtain ⟨listed, _⟩ := List.mem_filter.mp (Direction.arrange_perm.mem_iff.mp listed)
      obtain ⟨key, _, rfl⟩ := List.mem_map.mp listed
      exact (List.mem_filter.mp member).2
  unrankedOf docs readable := by
    rw [unrankedOf_eq ranked]
    refine ⟨_, rfl, fun i listed => ?_⟩
    split at listed
    · exact absurd listed List.not_mem_nil
    · exact (DocSet.mem_toList readable.legible).mp (List.mem_filter.mp listed).1

/-- The ranks of a sort index: each is one of a value, and where none is said to be missing none
is. -/
structure Ranks (index : SortIndex) (documents : Nat) (rank : Nat → Option Nat) : Prop where
  ranked : ∀ document, index.rank? document = .ok (rank document)
  below : ∀ document key, rank document = some key → document < documents ∧ key < index.rankCount
  unranked : index.unranked = 0 → ∀ document < documents, rank document ≠ none

structure Agrees (index : SortIndex) (documents : Nat) (rank : Nat → Option Nat) : Prop
    extends Ranks index documents rank where
  lists : index.postings.Lists documents True
    fun key => (List.range documents).filter (rank · = some key)

structure Files (index : SortIndex) (documents : Nat) (values : List Bytes)
    (rank : Nat → Option Nat) : Prop where
  dictionary : index.dictionary.Holds values
  keys : index.postings.keys = values.length
  agrees : index.Agrees documents rank

theorem Agrees.safe (agrees : index.Agrees documents rank) : index.Safe :=
  safe_of_ranked agrees.ranked agrees.lists

/-- Gathering lists the members of each rank. -/
theorem Ranks.gather_eq (ranks : index.Ranks documents rank) :
    index.gather docs = .ok (walk rank index.rankCount docs) :=
  gather_eq_walk ranks.ranked fun document key known => (ranks.below document key known).2

variable (within : docs.Within documents)

include within

theorem Ranks.unrankedOf_eq (ranks : index.Ranks documents rank) :
    index.unrankedOf docs = .ok (docs.toList.filter (rank · = none)) := by
  rw [SortIndex.unrankedOf_eq ranks.ranked]
  split
  · rename_i every
    refine congrArg Except.ok (Eq.symm (List.filter_eq_nil_iff.mpr fun document inside => ?_))
    have inside := within.below document ((DocSet.mem_toList within.legible).mp inside)
    simpa using ranks.unranked every document inside
  · rfl

theorem filter_bucket (key : Nat) :
    ((List.range documents).filter (rank · = some key)).filter docs.contains =
      docs.toList.filter (rank · = some key) := by
  rw [within.toList_eq, List.filter_filter, List.filter_filter]
  exact List.filter_congr fun _ _ => Bool.and_comm _ _

/-- Walking the postings lists the members of each rank, where that is what they are stored by. -/
theorem Ranks.postings_groups_eq (ranks : index.Ranks documents rank)
    (lists : index.postings.Lists documents truthful
      fun key => (List.range documents).filter (rank · = some key)) (direction : Direction) :
    index.postings.groups direction docs =
      .ok (direction.arrange (walk rank index.rankCount docs)) := by
  have occupied : ∀ document key, rank document = some key → key < index.postings.occupiedKeys :=
    fun document key known => Nat.lt_of_not_le fun past => by
      have none := lists.occupied key past
      have listed : document ∈ (List.range documents).filter (rank · = some key) :=
        List.mem_filter.mpr ⟨List.mem_range.mpr (ranks.below _ _ known).1, by simpa using known⟩
      rw [none] at listed
      exact absurd listed List.not_mem_nil
  rw [Postings.groups_eq lists within.legible]
  simp only [filter_bucket within]
  have same := (gather_eq_walk ranks.ranked occupied : index.gather docs = _).symm.trans
    ranks.gather_eq
  exact congrArg (Except.ok ∘ direction.arrange) (Except.ok.inj same)

/-- Walking the postings and gathering the ranks list the same groups, where the postings list
the documents of each rank. -/
theorem Ranks.groups_eq (ranks : index.Ranks documents rank)
    (lists : index.postings.Lists documents truthful
      fun key => (List.range documents).filter (rank · = some key)) (direction : Direction) :
    index.groups direction docs = .ok (direction.arrange (walk rank index.rankCount docs)) := by
  unfold groups
  split
  · rw [ranks.gather_eq]
    rfl
  · exact ranks.postings_groups_eq within lists direction

end SortIndex

end DocStore
