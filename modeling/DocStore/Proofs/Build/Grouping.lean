import DocStore.Proofs.Build.Freezing
import DocStore.Proofs.Index.Coherence

/-! Groups of a sortable field as it was built. Collecting the ranks of some documents and walking
the postings are two ways to the same groups, so that it makes no difference which one is taken. -/
namespace DocStore

def Direction.Precedes : Direction → Nat → Nat → Prop
  | ascending, a, b => a < b
  | descending, a, b => b < a

namespace SortIndex

/-- The members of a set in groups of one value, and behind them those without a value. Both ways
of grouping lead to these groups. Their ranks go strictly in the direction, their members ascend,
and each member of the set is listed once. -/
structure Grouped (index : SortIndex) (documents : Nat) (value? : Nat → Option Bytes)
    (direction : Direction) (docs : DocSet) (groups : List (Nat × List Nat)) (rest : List Nat) :
    Prop where
  gathered : (index.gather docs).map direction.arrange = .ok groups
  walked : index.postings.groups direction docs = .ok groups
  chosen : index.groups direction docs = .ok groups
  unranked : index.unrankedOf docs = .ok rest
  monotone : groups.Pairwise fun a b => direction.Precedes a.1 b.1
  members : ∀ group ∈ groups, group.2 ≠ [] ∧ group.2.Pairwise (· < ·) ∧
    ∃ value, index.value group.1 = .ok value ∧ ∀ i ∈ group.2, value? i = some value
  missing : ∀ i ∈ rest, value? i = none
  whole : (groups.flatMap (·.2) ++ rest).Perm ((List.range documents).filter docs.contains)

variable {index : SortIndex} {documents : Nat} {rank : Nat → Option Nat} {docs : DocSet}
  {values : List Bytes} {value? : Nat → Option Bytes}

theorem monotone_walk (rank : Nat → Option Nat) (bound : Nat) (docs : DocSet)
    (direction : Direction) : (direction.arrange (walk rank bound docs)).Pairwise
      fun a b => direction.Precedes a.1 b.1 := by
  have ascending : (walk rank bound docs).Pairwise fun a b => a.1 < b.1 := by
    apply List.Pairwise.filter
    exact List.pairwise_map.mpr List.pairwise_lt_range
  cases direction with
  | ascending => exact ascending
  | descending => exact List.pairwise_reverse.mpr ascending

theorem Orders.perm {direction : Direction} (orders : index.Orders direction docs)
    (within : docs.Within documents) {groups : List (Nat × List Nat)} {rest : List Nat}
    (grouped : index.groups direction docs = .ok groups)
    (single : index.unrankedOf docs = .ok rest) :
    (groups.flatMap (·.2) ++ rest).Perm ((List.range documents).filter docs.contains) := by
  obtain ⟨_, _, known, also, nodup, whole, _⟩ := orders
  obtain rfl := Except.ok.inj (grouped.symm.trans known)
  obtain rfl := Except.ok.inj (single.symm.trans also)
  refine (List.perm_ext_iff_of_nodup nodup (List.nodup_range.filter _)).mpr fun i => ?_
  rw [whole, List.mem_filter, List.mem_range]
  exact (and_iff_right_of_imp (within.below i)).symm

/-- Stored values, and ranks and postings that agree, group every set. -/
theorem Files.grouped (files : index.Files documents values rank)
    (valued : ∀ i key, rank i = some key → ∃ value, values[key]? = some value ∧ value? i = some value)
    (missing : ∀ i, rank i = none → value? i = none) (within : docs.Within documents)
    (direction : Direction) :
    ∃ groups rest, index.Grouped documents value? direction docs groups rest := by
  have ranks := files.agrees.toRanks
  have lists := files.agrees.lists
  have chosen := ranks.groups_eq within lists direction
  have unranked := ranks.unrankedOf_eq within
  refine ⟨_, _, ?_, ranks.postings_groups_eq within lists direction, chosen, unranked,
    monotone_walk _ _ _ _, fun group listed => ?_, fun i listed => ?_,
    (ranks.orders_of_walk within chosen).perm within chosen unranked⟩
  · rw [ranks.gather_eq]
    rfl
  · obtain ⟨listed, filled⟩ := List.mem_filter.mp (Direction.arrange_perm.mem_iff.mp listed)
    obtain ⟨key, _, rfl⟩ := List.mem_map.mp listed
    have ranked : ∀ i ∈ docs.toList.filter (rank · = some key), rank i = some key :=
      fun i member => of_decide_eq_true (List.mem_filter.mp member).2
    have filled : docs.toList.filter (rank · = some key) ≠ [] :=
      List.isEmpty_eq_false_iff.mp (by simpa using filled)
    obtain ⟨first, member⟩ := List.exists_mem_of_ne_nil _ filled
    obtain ⟨value, stored, _⟩ := valued first key (ranked first member)
    obtain ⟨inside, same⟩ := List.getElem?_eq_some_iff.mp stored
    refine ⟨filled, (DocSet.toList_ascending within.legible).filter _, value, ?_, fun i member => ?_⟩
    · exact same ▸ files.dictionary.get key inside
    · obtain ⟨own, also, known⟩ := valued i key (ranked i member)
      rw [known, ← also, stored]
  · exact missing i (of_decide_eq_true (List.mem_filter.mp listed).2)

end SortIndex

namespace Column

variable {c : Column} {documents : Nat} {body : Bytes}

/-- A body is longer than its dictionary. -/
theorem dictionary_lt_of_form (formed : c.form documents = .ok body) :
    (c.values.form c.indexing.dictionaryKind).length < body.length := by
  unfold form indexForm at formed
  obtain ⟨index, indexed, framed⟩ := bind_eq_ok.mp formed
  obtain ⟨collected, _, indexed⟩ := bind_eq_ok.mp indexed
  obtain ⟨encoding, _, indexed⟩ := bind_eq_ok.mp indexed
  obtain ⟨stored, _, indexed⟩ := bind_eq_ok.mp indexed
  cases indexed
  cases framed
  simp only [List.length_append, Bytes.counted, Bytes.length_ofUInt32]
  omega

end Column

namespace Builder

variable {b : Builder} {documents : List Document} {c : Column}

section Ranks

variable (stores : b.Stores documents) (inside : c ∈ b.columns)
  (sortable : c.indexing.isSortable = true)

include stores inside sortable

theorem Stores.value_of_rank {i key : Nat} (ranked : c.rank i = some key) :
    ∃ value, c.values.values[key]? = some value ∧
      documents[i]?.bind (·.sortValue c.name) = some value := by
  rw [← stores.lastValue?_eq inside sortable]
  obtain ⟨value, last, known⟩ := Option.bind_eq_some_iff.mp ranked
  obtain ⟨there, same, _⟩ := List.idxOf?_eq_some_iff.mp known
  exact ⟨value, List.getElem?_eq_some_iff.mpr ⟨there, same⟩, last⟩

end Ranks

/-- The sort index of a field that was built from some documents groups every set of them the same
way by collecting ranks and by walking postings, in both directions. The body is one whose length
a frame can tell, as all are that were read from a file. -/
theorem built_groups_alike {body : Bytes} {raw : RawSegment} (built : ∀ d ∈ documents, d.Built)
    (accepted : ofDocuments documents = .ok b) (inside : c ∈ b.columns)
    (sortable : c.indexing.isSortable = true) (formed : c.form b.size = .ok body)
    (short : body.length + 4 < 2 ^ 32) (kind : raw.kind = c.indexing.segmentKind)
    (written : raw.body.rest = body) :
    ∃ segment index, raw.decode b.size = .ok segment ∧ segment.sorts = [index] ∧
      index.name = c.name ∧
      ∀ (direction : Direction) (docs : DocSet), docs.Within documents.length →
        ∃ groups rest, index.Grouped documents.length
          (fun i => documents[i]?.bind (·.sortValue c.name)) direction docs groups rest := by
  have stores := stores_of_built built accepted
  have sealable := stores.sealable inside
  have dictionary := Column.dictionary_lt_of_form formed
  rw [stores.size] at formed ⊢
  have reads := Column.body_reads sealable (by omega) formed short
  rw [← kind] at reads
  obtain ⟨segment, decoded, indexes⟩ := RawSegment.decode_eq_ok reads written
  have named := indexes.sortNames
  rw [kind, Indexing.isSort_segmentKind, if_pos sortable] at named
  obtain ⟨index, only, name⟩ := List.map_eq_singleton_iff.mp named
  refine ⟨segment, index, decoded, only, name, fun direction docs within => ?_⟩
  have files := indexes.sorts index (only ▸ List.mem_singleton_self index)
  apply files.grouped _ _ within direction
  · exact fun i key => stores.value_of_rank inside sortable
  · intro i
    exact ((stores.ranking inside sortable).none i).mp

def gapDocuments : List Document :=
  [⟨[⟨"t", [1], ⟨.full, .varied⟩⟩], some []⟩, ⟨[], some []⟩,
    ⟨[⟨"t", [0], ⟨.full, .varied⟩⟩], some []⟩]

def gapBuilder : Builder := (ofDocuments gapDocuments).toOption.getD .empty

def gapColumn : Column := gapBuilder.columns.headD (.empty "" ⟨.full, .varied⟩)

def gapSegment : RawSegment :=
  ⟨gapColumn.indexing.segmentKind, 0, View.ofBytes (gapBuilder.bodyOf gapColumn)⟩

theorem built_groups_alike_gap : ∃ segment index, gapSegment.decode 3 = .ok segment ∧
    segment.sorts = [index] ∧
      index.Grouped 3 (fun i => gapDocuments[i]?.bind (·.sortValue "t")) .descending (.all 3)
        [(1, [0]), (0, [2])] [1] := by
  have built : ∀ d ∈ gapDocuments, d.Built := by
    intro d inside
    simp only [gapDocuments, List.mem_cons, List.not_mem_nil, or_false] at inside
    rcases inside with rfl | rfl | rfl
    · exact ⟨[.field "t" (.bytes [1]) ⟨.full, .varied⟩, .payload []], rfl⟩
    · exact ⟨[.payload []], rfl⟩
    · exact ⟨[.field "t" (.bytes [0]) ⟨.full, .varied⟩, .payload []], rfl⟩
  have inside : gapColumn ∈ gapBuilder.columns := by decide +kernel
  have short : gapBuilder.Short := by decide +kernel
  have formed := bodyOf_eq (stores_of_built built rfl) short inside
  obtain ⟨segment, index, decoded, only, _, alike⟩ := @built_groups_alike gapBuilder gapDocuments
    gapColumn _ gapSegment built rfl inside (by decide +kernel) formed
    (short.bodies _ inside _ formed) rfl ((View.rest_ofBytes _).trans (List.append_nil _))
  obtain ⟨groups, rest, grouped⟩ := alike .descending (.all 3) (DocSet.within_all (by decide))
  have known : (gapSegment.decode 3).toOption.any (fun segment => segment.sorts.all fun index =>
      (index.groups .descending (.all 3)).toOption = some [(1, [0]), (0, [2])] ∧
        (index.unrankedOf (.all 3)).toOption = some [1]) = true := by
    decide +kernel
  rw [show gapSegment.decode 3 = .ok segment from decoded] at known
  simp only [Except.toOption, Option.any_some, only, List.all_cons, grouped.chosen,
    grouped.unranked, Option.some.injEq, List.all_nil, Bool.and_true, decide_eq_true_eq] at known
  obtain ⟨rfl, rfl⟩ := known
  exact ⟨segment, index, decoded, only, grouped⟩

end Builder

end DocStore
