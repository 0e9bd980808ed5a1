import Mathlib.Data.List.Dedup
import Mathlib.Data.List.Perm.Basic
import DocStore.Postings.Builder
import DocStore.Proofs.Ascending
import DocStore.Proofs.Outcomes

/-! What a builder of postings has collected: for each key the documents of the pairs that were
put, in any order and any number of times. -/
namespace DocStore.PostingsBuilder

variable {b : PostingsBuilder} {key document i keys documents : Nat} {pairs done : List (Nat × Nat)}

def bucket (b : PostingsBuilder) (key : Nat) : List Nat := b.normalize.buckets.toList.getD key []

theorem length_normalize (b : PostingsBuilder) : b.normalize.buckets.toList.length = b.keys := by
  simp [normalize, PostingsBuilder.keys]

theorem bucket_eq (b : PostingsBuilder) (key : Nat) :
    b.bucket key = ((b.buckets.toList.getD key []).mergeSort (· ≤ ·)).eraseReps := by
  rw [bucket, normalize, Array.toList_map, List.getD_eq_getElem?_getD, List.getElem?_map,
    List.getD_eq_getElem?_getD]
  cases b.buckets.toList[key]? with
  | none =>
    rw [Option.map_none, Option.getD_none, List.mergeSort_nil]
    rfl
  | some listed => rfl

theorem mem_bucket : i ∈ b.bucket key ↔ i ∈ b.buckets.toList.getD key [] := by
  rw [bucket_eq]
  exact (eraseReps_mergeSort _).2 i

theorem bucket_ascending (b : PostingsBuilder) (key : Nat) : (b.bucket key).Pairwise (· < ·) := by
  rw [bucket_eq]
  exact (eraseReps_mergeSort _).1

theorem listed_normalize (below : ∀ listed ∈ b.buckets.toList, ∀ i ∈ listed, i < b.documents) :
    ∀ listed ∈ b.normalize.buckets.toList,
      listed.Pairwise (· < ·) ∧ ∀ i ∈ listed, i < b.documents := by
  intro listed inside
  simp only [normalize, Array.toList_map, List.mem_map] at inside
  obtain ⟨collected, member, rfl⟩ := inside
  obtain ⟨ascending, same⟩ := eraseReps_mergeSort collected
  exact ⟨ascending, fun i listed => below collected member i ((same i).mp listed)⟩

/-- Writing a form sorts what was collected; a form that is written later is the same. -/
theorem normalize_normalize (b : PostingsBuilder) : b.normalize.normalize = b.normalize := by
  have again : ∀ listed : List Nat,
      (((listed.mergeSort (· ≤ ·)).eraseReps.mergeSort (· ≤ ·)).eraseReps) =
        (listed.mergeSort (· ≤ ·)).eraseReps := by
    exact fun listed => eraseReps_mergeSort_congr (eraseReps_mergeSort listed).2
  simp only [normalize, Array.map_map, Function.comp_def, again]

/-- A pair in range is put behind what its key has already. -/
theorem put_eq_ok (inside : key < b.keys) (below : document < b.documents)
    (small : document < 2 ^ 32) :
    ∃ b', b.put key document = .ok b' ∧ b'.documents = b.documents ∧ b'.keys = b.keys ∧
      ∀ k, b'.buckets.toList.getD k [] =
        b.buckets.toList.getD k [] ++ if key = k then [document] else [] := by
  refine ⟨{ b with buckets := b.buckets.modify key (· ++ [document]) }, ?_, rfl, ?_, ?_⟩
  · have room : key < b.buckets.size := inside
    have fits : document < 0x100000000 := small
    rw [put, if_pos below, if_pos room, Nat.mod_eq_of_lt fits]
  · exact Array.size_modify
  · intro k
    rw [List.getD_eq_getElem?_getD, List.getD_eq_getElem?_getD, Array.toList_modify,
      List.getElem?_modify]
    cases there : b.buckets.toList[k]? with
    | none =>
      have past := List.getElem?_eq_none_iff.mp there
      rw [Array.length_toList] at past
      have other : key ≠ k := Nat.ne_of_lt (Nat.lt_of_lt_of_le inside past)
      simp [other]
    | some listed =>
      by_cases same : key = k
      · simp [same]
      · simp [same]

/-- A builder has collected some pairs. -/
structure Gathers (b : PostingsBuilder) (keys documents : Nat) (pairs : List (Nat × Nat)) :
    Prop where
  inside : ∀ pair ∈ pairs, pair.1 < keys ∧ pair.2 < documents
  listed : ∀ key i, i ∈ b.buckets.toList.getD key [] ↔ (key, i) ∈ pairs
  keys : b.keys = keys
  documents : b.documents = documents

theorem gathers_empty (keys documents : Nat) :
    (PostingsBuilder.empty keys documents).Gathers keys documents [] where
  keys := by simp [PostingsBuilder.keys, PostingsBuilder.empty]
  documents := rfl
  listed key i := by
    rw [PostingsBuilder.empty, Array.toList_replicate, List.getD_eq_getElem?_getD,
      List.getElem?_replicate]
    split <;> simp
  inside _ listed := absurd listed List.not_mem_nil

/-- Pairs in range are put without a fault. -/
theorem Gathers.putAll (gathers : b.Gathers keys documents done)
    (inside : ∀ pair ∈ pairs, pair.1 < keys ∧ pair.2 < documents)
    (small : ∀ pair ∈ pairs, pair.2 < 2 ^ 32) :
    ∃ b', b.putAll pairs = (b', none) ∧ b'.Gathers keys documents (done ++ pairs) := by
  induction pairs generalizing b done with
  | nil => exact ⟨b, rfl, by rwa [List.append_nil]⟩
  | cons pair rest ih =>
    obtain ⟨key, document⟩ := pair
    obtain ⟨known, below⟩ := inside _ List.mem_cons_self
    obtain ⟨next, put, sameDocuments, sameKeys, listed⟩ := put_eq_ok
      (gathers.keys.symm ▸ known) (gathers.documents.symm ▸ below) (small _ List.mem_cons_self)
    have step : next.Gathers keys documents (done ++ [(key, document)]) := by
      constructor
      · intro pair listed
        rcases List.mem_append.mp listed with earlier | last
        · exact gathers.inside pair earlier
        · exact List.mem_singleton.mp last ▸ ⟨known, below⟩
      · intro k i
        rw [listed, List.mem_append, gathers.listed, List.mem_append, List.mem_singleton,
          Prod.mk.injEq]
        by_cases same : key = k
        · simp [same]
        · simp [same, Ne.symm same]
      · exact sameKeys.trans gathers.keys
      · exact sameDocuments.trans gathers.documents
    obtain ⟨last, puts, all⟩ := ih step
      (fun pair later => inside pair (List.mem_cons_of_mem _ later))
      fun pair later => small pair (List.mem_cons_of_mem _ later)
    refine ⟨last, ?_, ?_⟩
    · rw [PostingsBuilder.putAll, put]
      exact puts
    · rwa [List.append_assoc] at all

namespace Gathers

variable (gathers : b.Gathers keys documents pairs)

include gathers

theorem bucket_eq_filter :
    b.bucket = fun key => (List.range documents).filter fun i => (key, i) ∈ pairs := by
  funext key
  refine eq_of_ascending (b.bucket_ascending key) (List.pairwise_lt_range.filter _) fun i => ?_
  rw [mem_bucket, gathers.listed, List.mem_filter, List.mem_range, decide_eq_true_eq]
  exact ⟨fun pair => ⟨(gathers.inside _ pair).2, pair⟩, And.right⟩

theorem mem_of_listed {listed : List Nat} (inside : listed ∈ b.buckets.toList)
    (member : i ∈ listed) : ∃ key, (key, i) ∈ pairs := by
  obtain ⟨key, within, rfl⟩ := List.getElem_of_mem inside
  refine ⟨key, (gathers.listed key i).mp ?_⟩
  rwa [List.getD_eq_getElem _ _ within]

theorem below : ∀ listed ∈ b.buckets.toList, ∀ i ∈ listed, i < b.documents := by
  intro listed within i member
  obtain ⟨key, pair⟩ := gathers.mem_of_listed within member
  exact gathers.documents ▸ (gathers.inside _ pair).2

/-- The list form has an entry for each pair, once. -/
theorem pairs_normalize : b.normalize.pairs = pairs.dedup.length := by
  have count := length_normalize b
  have entries : b.normalize.pairs =
      ((List.range b.keys).flatMap fun key => (b.bucket key).map (key, ·)).length := by
    rw [PostingsBuilder.pairs, List.length_flatten, List.length_flatMap, ← count]
    refine congrArg List.sum (List.ext_getElem (by simp) fun key here there => ?_)
    have within : key < b.normalize.buckets.toList.length := by simpa using here
    have same := List.getD_eq_getElem b.normalize.buckets.toList [] within
    simp only [List.getElem_map, List.getElem_range, List.length_map, bucket, same]
  rw [entries]
  refine List.Perm.length_eq ((List.perm_ext_iff_of_nodup ?_ (List.nodup_dedup _)).mpr ?_)
  · rw [List.nodup_flatMap]
    constructor
    · intro key _
      exact (nodup_of_ascending (b.bucket_ascending key)).map fun i j same => (Prod.mk.inj same).2
    · refine List.nodup_range.imp fun {key other} apart => ?_
      intro pair here there
      obtain ⟨i, _, rfl⟩ := List.mem_map.mp here
      obtain ⟨j, _, same⟩ := List.mem_map.mp there
      exact apart (Prod.mk.inj same).1.symm
  · rintro ⟨key, i⟩
    rw [List.mem_dedup, List.mem_flatMap, ← gathers.listed, ← mem_bucket]
    constructor
    · rintro ⟨_, _, member⟩
      obtain ⟨_, listed, same⟩ := List.mem_map.mp member
      obtain ⟨rfl, rfl⟩ := Prod.mk.inj same
      exact listed
    · intro member
      have pair := (gathers.listed key i).mp (mem_bucket.mp member)
      have known : key < b.keys := gathers.keys.symm ▸ (gathers.inside _ pair).1
      exact ⟨key, List.mem_range.mpr known, List.mem_map.mpr ⟨i, member, rfl⟩⟩

end Gathers

structure Reordered (b b' : PostingsBuilder) : Prop where
  documents : b.documents = b'.documents
  buckets : List.Forall₂ List.Perm b.buckets.toList b'.buckets.toList

namespace Reordered

variable {b' : PostingsBuilder} (reordered : b.Reordered b')

include reordered

theorem normalize_eq : b.normalize = b'.normalize := by
  have buckets : b.buckets.map (fun listed => (listed.mergeSort (· ≤ ·)).eraseReps) =
      b'.buckets.map fun listed => (listed.mergeSort (· ≤ ·)).eraseReps := by
    apply Array.toList_inj.mp
    rw [Array.toList_map, Array.toList_map, ← List.forall₂_eq_eq_eq, List.forall₂_map_left_iff,
      List.forall₂_map_right_iff]
    exact reordered.buckets.imp fun _ _ shuffled =>
      eraseReps_mergeSort_congr fun i => shuffled.mem_iff
  simp only [normalize, reordered.documents, buckets]

/-- The form is chosen by numbers alone, and written of what was sorted. -/
theorem choice_eq : b.choice = b'.choice := by
  have keys : b.keys = b'.keys := by
    simpa [PostingsBuilder.keys] using reordered.buckets.length_eq
  have pairs : b.pairs = b'.pairs := (List.Perm.flatten_congr reordered.buckets).length_eq
  have bits : b.bitFormLength = b'.bitFormLength := by
    simp only [bitFormLength, keys, reordered.documents]
  have list : b.listFormLength = b'.listFormLength := by
    simp only [listFormLength, keys, pairs]
  rw [choice, choice, bits, list]

theorem form_eq (encoding : PostingsEncoding) : b.form encoding = b'.form encoding := by
  cases encoding <;> simp only [form, reordered.normalize_eq, reordered.documents]

end Reordered

end DocStore.PostingsBuilder
