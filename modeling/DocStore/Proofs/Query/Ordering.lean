import DocStore.Proofs.Query.Emitting

/-! The order of a result: by one field after the other, and then by number. The recursive
splitting into ties lists a selection in just this order. -/
namespace DocStore

/-- Whether a value comes before another in a direction. Having none comes last in both. -/
def Direction.before (direction : Direction) : Option Bytes → Option Bytes → Bool
  | some a, some b =>
    match direction with
    | .ascending => a < b
    | .descending => b < a
  | some _, none => true
  | none, _ => false

/-- Whether document `i` comes no later than document `j`, by the values that documents have for
some fields and then by number. -/
def Order.le (value : String → Nat → Option Bytes) : List Order → Nat → Nat → Bool
  | [], i, j => i ≤ j
  | order :: rest, i, j =>
    order.direction.before (value order.field i) (value order.field j) ||
      (value order.field i = value order.field j && le value rest i j)

namespace Direction

variable {direction : Direction} {a b c : Option Bytes}

theorem before_irrefl : direction.before a a = false := by
  cases a with
  | none => rfl
  | some value => cases direction <;> simp [before, List.lt_irrefl]

theorem before_trans (first : direction.before a b = true) (second : direction.before b c = true) :
    direction.before a c = true := by
  cases a with
  | none => contradiction
  | some value =>
    cases c with
    | none => rfl
    | some other =>
      cases b with
      | none => contradiction
      | some middle =>
        cases direction with
        | ascending => simpa [before] using List.lt_trans (of_decide_eq_true first) (of_decide_eq_true second)
        | descending => simpa [before] using List.lt_trans (of_decide_eq_true second) (of_decide_eq_true first)

theorem before_connected (direction : Direction) (a b : Option Bytes) :
    direction.before a b = true ∨ a = b ∨ direction.before b a = true := by
  cases a with
  | none =>
    cases b with
    | none => exact Or.inr (Or.inl rfl)
    | some other => exact Or.inr (Or.inr rfl)
  | some value =>
    cases b with
    | none => exact Or.inl rfl
    | some other =>
      have sides : value < other ∨ value = other ∨ other < value := by
        by_cases lower : value < other
        · exact Or.inl lower
        · by_cases upper : other < value
          · exact Or.inr (Or.inr upper)
          · exact Or.inr (Or.inl (List.le_antisymm upper lower))
      cases direction with
      | ascending => simpa [before] using sides
      | descending => simpa [before, or_comm, or_assoc, or_left_comm] using sides

end Direction

namespace Order

variable {value : String → Nat → Option Bytes} {orders : List Order} {i j k : Nat}

theorem le_trans (first : le value orders i j = true) (second : le value orders j k = true) :
    le value orders i k = true := by
  induction orders with
  | nil =>
    simp only [le, decide_eq_true_eq] at *
    exact Nat.le_trans first second
  | cons order rest ih =>
    simp only [le, Bool.or_eq_true, Bool.and_eq_true, decide_eq_true_eq] at *
    rcases first with before | ⟨same, first⟩
    · rcases second with later | ⟨again, _⟩
      · exact Or.inl (Direction.before_trans before later)
      · exact Or.inl (again ▸ before)
    · rw [same]
      exact second.imp_right fun ⟨again, second⟩ => ⟨again, ih first second⟩

theorem le_antisymm (first : le value orders i j = true) (second : le value orders j i = true) :
    i = j := by
  induction orders with
  | nil =>
    simp only [le, decide_eq_true_eq] at *
    exact Nat.le_antisymm first second
  | cons order rest ih =>
    simp only [le, Bool.or_eq_true, Bool.and_eq_true, decide_eq_true_eq] at *
    rcases first with before | ⟨same, first⟩
    · rcases second with after | ⟨again, _⟩
      · have circle := Direction.before_trans before after
        rw [Direction.before_irrefl] at circle
        contradiction
      · rw [again, Direction.before_irrefl] at before
        contradiction
    · rcases second with after | ⟨_, second⟩
      · rw [same, Direction.before_irrefl] at after
        contradiction
      · exact ih first second

theorem le_total (value : String → Nat → Option Bytes) (orders : List Order) (i j : Nat) :
    (le value orders i j || le value orders j i) = true := by
  induction orders with
  | nil => simpa [le] using Nat.le_total i j
  | cons order rest ih =>
    simp only [le, Bool.or_eq_true, Bool.and_eq_true, decide_eq_true_eq] at *
    rcases order.direction.before_connected (value order.field i) (value order.field j) with
      before | same | after
    · exact Or.inl (Or.inl before)
    · exact ih.imp (fun first => Or.inr ⟨same, first⟩) fun second => Or.inr ⟨same.symm, second⟩
    · exact Or.inr (Or.inl after)

/-- A list in this order is the result of sorting whatever has the same members. -/
theorem eq_mergeSort {listed docs : List Nat} (sorted : listed.Pairwise (le value orders · ·))
    (same : listed.Perm docs) : listed = docs.mergeSort (le value orders) := by
  apply (same.trans (List.mergeSort_perm docs _).symm).eq_of_pairwise
    (fun _ _ _ _ => le_antisymm) sorted
  exact List.pairwise_mergeSort (fun i j k => @le_trans value orders i j k)
    (le_total value orders) docs

end Order

namespace SortIndex

variable {index : SortIndex} {documents : Nat} {rank : Nat → Option Nat} {docs : DocSet}
  {direction : Direction} {value : Nat → Option Bytes} {i j : Nat}

structure Ranking (rank : Nat → Option Nat) (value : Nat → Option Bytes) : Prop where
  none : ∀ i, rank i = none ↔ value i = none
  order : ∀ {i j a b v w}, rank i = some a → rank j = some b → value i = some v →
    value j = some w → (a < b ↔ v < w)

theorem Ranking.before (ranking : Ranking rank value) {a b : Nat} (first : rank i = some a)
    (second : rank j = some b) : direction.before (value i) (value j) = true ↔
      match direction with
      | .ascending => a < b
      | .descending => b < a := by
  cases left : value i with
  | none => exact absurd ((ranking.none i).mpr left) (by simp [first])
  | some v =>
    cases right : value j with
    | none => exact absurd ((ranking.none j).mpr right) (by simp [second])
    | some w =>
      cases direction with
      | ascending => simpa [Direction.before] using (ranking.order first second left right).symm
      | descending => simpa [Direction.before] using (ranking.order second first right left).symm

theorem Ranking.same (ranking : Ranking rank value) (tied : rank i = rank j) :
    value i = value j := by
  cases known : rank i with
  | none =>
    rw [(ranking.none i).mp known, (ranking.none j).mp (tied.symm.trans known)]
  | some key =>
    have other := tied.symm.trans known
    rcases Direction.ascending.before_connected (value i) (value j) with before | same | after
    · exact absurd ((ranking.before known other).mp before) (Nat.lt_irrefl key)
    · exact same
    · exact absurd ((ranking.before other known).mp after) (Nat.lt_irrefl key)

section Ties

variable (agrees : index.Agrees documents rank) (ranking : Ranking rank value)
  (readable : docs.Readable) (size : docs.size = documents)

include agrees readable size

theorem ties_eq : Emission.ties index direction docs =
    (direction.arrange (walk rank index.rankCount docs)).map (·.2) ++
      [docs.toList.filter (rank · = none)] := by
  rw [Emission.ties, agrees.groups_eq (readable.within size) agrees.lists,
    agrees.unrankedOf_eq (readable.within size)]
  rfl

/-- A tie lists the documents of one rank. -/
theorem rank_of_ties {members : List Nat} (tied : members ∈ Emission.ties index direction docs) :
    ∃ key, members = docs.toList.filter (rank · = key) := by
  rw [ties_eq agrees readable size] at tied
  rcases List.mem_append.mp tied with group | last
  · obtain ⟨pair, listed, rfl⟩ := List.mem_map.mp group
    obtain ⟨listed, _⟩ := List.mem_filter.mp (Direction.arrange_perm.mem_iff.mp listed)
    obtain ⟨key, _, rfl⟩ := List.mem_map.mp listed
    exact ⟨some key, rfl⟩
  · exact ⟨none, List.mem_singleton.mp last⟩

theorem mem_ties : (∃ members ∈ Emission.ties index direction docs, i ∈ members) ↔
    i ∈ docs.toList := by
  constructor
  · rintro ⟨members, tied, member⟩
    obtain ⟨key, rfl⟩ := rank_of_ties agrees readable size tied
    exact (List.mem_filter.mp member).1
  · intro listed
    rw [ties_eq agrees readable size]
    cases known : rank i with
    | none =>
      exact ⟨_, List.mem_append_right _ (List.mem_singleton_self _),
        List.mem_filter.mpr ⟨listed, by simpa using known⟩⟩
    | some key =>
      have member : i ∈ docs.toList.filter (rank · = some key) :=
        List.mem_filter.mpr ⟨listed, by simpa using known⟩
      have group : (key, docs.toList.filter (rank · = some key)) ∈
          walk rank index.rankCount docs := by
        refine List.mem_filter.mpr ⟨List.mem_map.mpr ⟨key, ?_, rfl⟩, ?_⟩
        · exact List.mem_range.mpr (agrees.below i key known).2
        · cases filled : docs.toList.filter (rank · = some key) with
          | nil => exact absurd (filled ▸ member) List.not_mem_nil
          | cons first rest => rfl
      exact ⟨_, List.mem_append_left _ (List.mem_map.mpr
        ⟨_, Direction.arrange_perm.mem_iff.mpr group, rfl⟩), member⟩

include ranking

/-- Ties come in the order of their values. -/
theorem ties_pairwise : (Emission.ties index direction docs).Pairwise fun front back =>
    ∀ i ∈ front, ∀ j ∈ back, direction.before (value i) (value j) = true := by
  have ranked : ∀ {pair i}, pair ∈ walk rank index.rankCount docs → i ∈ pair.2 →
      rank i = some pair.1 := fun listed member => by
    obtain ⟨key, _, rfl⟩ := List.mem_map.mp (List.mem_filter.mp listed).1
    simpa using (List.mem_filter.mp member).2
  have sorted : (walk rank index.rankCount docs).Pairwise fun a b => a.1 < b.1 := by
    apply List.Pairwise.filter
    exact (List.pairwise_map).mpr List.pairwise_lt_range
  rw [ties_eq agrees readable size]
  refine List.pairwise_append.mpr ⟨(List.pairwise_map).mpr ?_, List.pairwise_singleton _ _, ?_⟩
  · cases direction with
    | ascending =>
      refine sorted.imp_of_mem fun first second order i left j right => ?_
      exact (ranking.before (ranked first left) (ranked second right)).mpr order
    | descending =>
      refine List.pairwise_reverse.mpr (sorted.imp_of_mem fun first second order i left j right => ?_)
      exact (ranking.before (ranked second left) (ranked first right)).mpr order
  · intro members group last lone i left j right
    obtain ⟨pair, listed, rfl⟩ := List.mem_map.mp group
    obtain rfl := List.mem_singleton.mp lone
    have some := ranked (Direction.arrange_perm.mem_iff.mp listed) left
    have none : rank j = none := by simpa using (List.mem_filter.mp right).2
    rw [(ranking.none j).mp none]
    cases known : value i with
    | none => exact absurd ((ranking.none i).mpr known) (by simp [some])
    | some v => rfl

end Ties

end SortIndex

structure Source.Orders (source : Source) (value : String → Nat → Option Bytes) : Prop where
  small : source.documents + 63 < sizeLimit
  indexed : ∀ field index, source.sort? field = some index → ∃ rank,
    index.Agrees source.documents rank ∧ SortIndex.Ranking rank (value field)
  plain : ∀ field i, source.sort? field = none → value field i = none

namespace Emission

variable {source : Source} {value : String → Nat → Option Bytes} {docs : DocSet}

/-- Members that are not split further are in order. -/
theorem whole_sorted {rest : List Order} {members : List Nat} (ascending : members.Pairwise (· < ·))
    (whole : (rest.isEmpty || members.length < 2) = true) :
    members.Pairwise fun i j => Order.le value rest i j = true ∧ i ≠ j := by
  cases rest with
  | nil =>
    apply ascending.imp
    intro i j order
    exact ⟨by simpa [Order.le] using Nat.le_of_lt order, Nat.ne_of_lt order⟩
  | cons order rest =>
    match members with
    | [] => exact List.Pairwise.nil
    | [_] => exact List.pairwise_singleton _ _
    | _ :: _ :: _ =>
      simp only [List.isEmpty_cons, List.length_cons, Bool.false_or, decide_eq_true_eq] at whole
      omega

/-- Ties one after the other, each listed in the order of the other fields, are in order. -/
theorem flatMap_ties_sorted {index : SortIndex} {rank : Nat → Option Nat} {order : Order}
    {rest : List Order} {listed : List Nat → List Nat}
    (agrees : index.Agrees source.documents rank)
    (ranking : SortIndex.Ranking rank (value order.field)) (readable : docs.Readable)
    (size : docs.size = source.documents)
    (each : ∀ members ∈ ties index order.direction docs,
      (listed members).Pairwise (fun i j => Order.le value rest i j = true ∧ i ≠ j) ∧
        ∀ i, i ∈ listed members ↔ i ∈ members) :
    ((ties index order.direction docs).flatMap listed).Pairwise
        (fun i j => Order.le value (order :: rest) i j = true ∧ i ≠ j) ∧
      ∀ i, i ∈ (ties index order.direction docs).flatMap listed ↔ i ∈ docs.toList := by
  constructor
  · refine List.pairwise_flatMap.mpr ⟨fun members tied => ?_, ?_⟩
    -- Inside a tie the values agree, so that the other fields decide.
    · obtain ⟨key, known⟩ := SortIndex.rank_of_ties agrees readable size tied
      obtain ⟨sorted, same⟩ := each members tied
      have alike : ∀ i ∈ listed members, rank i = key := fun i member => by
        have tied := known ▸ (same i).mp member
        simpa using (List.mem_filter.mp tied).2
      refine sorted.imp_of_mem fun {i j} left right first => ⟨?_, first.2⟩
      have equal := ranking.same ((alike i left).trans (alike j right).symm)
      simp [Order.le, equal, first.1]
    · refine (SortIndex.ties_pairwise agrees ranking readable size).imp_of_mem
        fun {front back} first second before i left j right => ?_
      have earlier := before i (((each front first).2 i).mp left) j
        (((each back second).2 j).mp right)
      refine ⟨by simp [Order.le, earlier], ?_⟩
      rintro rfl
      rw [Direction.before_irrefl] at earlier
      contradiction
  · intro i
    rw [← SortIndex.mem_ties agrees readable size, List.mem_flatMap]
    exact exists_congr fun members => and_congr_right fun tied => (each members tied).2 i

/-- A listing has each document of the set once, and each no later than those behind it. -/
theorem listing_sorted (ordered : source.Orders value) (orders : List Order)
    (readable : docs.Readable) (size : docs.size = source.documents) :
    (listing source orders docs).Pairwise
        (fun i j => Order.le value orders i j = true ∧ i ≠ j) ∧
      ∀ i, i ∈ listing source orders docs ↔ i ∈ docs.toList := by
  have ascending := DocSet.toList_ascending readable.legible
  induction orders generalizing docs with
  | nil => exact ⟨whole_sorted ascending rfl, fun _ => Iff.rfl⟩
  | cons order rest ih =>
    rw [listing]
    cases known : source.sort? order.field with
    | none =>
      obtain ⟨sorted, members⟩ := ih readable size ascending
      refine ⟨sorted.imp fun {i j} first => ⟨?_, first.2⟩, members⟩
      simp [Order.le, ordered.plain _ _ known, first.1]
    | some index =>
      obtain ⟨rank, agrees, ranking⟩ := ordered.indexed order.field index known
      refine flatMap_ties_sorted agrees ranking readable size fun members tied => ?_
      obtain ⟨key, rfl⟩ := SortIndex.rank_of_ties agrees readable size tied
      split
      · exact ⟨whole_sorted (ascending.filter _) ‹_›, fun _ => Iff.rfl⟩
      · have inside : ∀ i ∈ docs.toList.filter (rank · = key), i < source.documents :=
          fun i member => size ▸ DocSet.lt_of_contains
            ((DocSet.mem_toList readable.legible).mp (List.mem_filter.mp member).1)
        obtain ⟨_, sizes, trimmed, same⟩ := ArraySet.ofMembers_eq inside
        have stored := DocSet.readable_stored trimmed (sizes.symm ▸ ordered.small)
        obtain ⟨sorted, members⟩ := ih stored sizes (DocSet.toList_ascending stored.legible)
        refine ⟨sorted, fun i => (members i).trans ((DocSet.mem_toList stored.legible).trans ?_)⟩
        exact same i

/-- A listing is the set, sorted by the orders. -/
theorem listing_eq (ordered : source.Orders value) (orders : List Order) (readable : docs.Readable)
    (size : docs.size = source.documents) :
    listing source orders docs = docs.toList.mergeSort (Order.le value orders) := by
  obtain ⟨sorted, members⟩ := listing_sorted ordered orders readable size
  apply Order.eq_mergeSort (sorted.imp And.left)
  exact (List.perm_ext_iff_of_nodup (sorted.imp And.right)
    (nodup_of_ascending (DocSet.toList_ascending readable.legible))).mpr members

end Emission

end DocStore
