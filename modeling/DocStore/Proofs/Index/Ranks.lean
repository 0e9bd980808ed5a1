import DocStore.Proofs.Index.Sort

/-! Stored ranks: read off arbitrary bytes without a fault, and the ranks that were written. -/
namespace DocStore

/-- A loop that counts the items that pass, as far as 64 bits count. -/
theorem Decoder.Reads.count {β : Type} {items : List β} {step : Nat → β → Decoder Nat} {n : Nat}
    (passes : β → Bool) (room : n + items.length < sizeLimit)
    (each : ∀ n, n + 1 < sizeLimit → ∀ item ∈ items,
      Reads (step n item) [] (· = n + (passes item).toNat)) :
    Reads (items.foldlM step n) [] (· = n + items.countP passes) := by
  induction items generalizing n with
  | nil => exact Reads.pure rfl
  | cons item rest ih =>
    rw [List.length_cons] at room
    have own := Bool.toNat_le (passes item)
    rw [List.foldlM_cons]
    refine (each n (by omega) item List.mem_cons_self).bind_nil fun _ same => ?_
    subst same
    refine (ih (by omega) fun n room item later =>
      each n room item (List.mem_cons_of_mem _ later)).mono fun _ same => same.trans ?_
    rw [List.countP_cons]
    cases passes item with
    | false => rfl
    | true =>
      rw [if_pos rfl, Bool.toNat_true]
      omega

namespace SortIndex

variable {name : String} {dictionary : Dictionary} {postings : Postings}

def rankIn (documents : Nat) (stored : Nat → Nat) (document : Nat) : Option Nat :=
  if document < documents ∧ stored document ≠ noRank then some (stored document) else none

theorem ranks_rankIn {index : SortIndex} {documents : Nat} {stored : Nat → Nat}
    (ranked : ∀ document, index.rank? document = .ok (rankIn documents stored document))
    (ranks : ∀ document < documents, stored document = noRank ∨ stored document < index.rankCount)
    (unranked : index.unranked = 0 → ∀ document < documents, stored document ≠ noRank) :
    index.Ranks documents (rankIn documents stored) where
  ranked := ranked
  below document key known := by
    unfold rankIn at known
    split at known
    · rename_i there
      cases known
      exact ⟨there.1, (ranks document there.1).resolve_left there.2⟩
    · contradiction
  unranked every document inside none := by
    have some := unranked every document inside
    rw [rankIn, if_pos ⟨inside, some⟩] at none
    contradiction

theorem rank?_eq {index : SortIndex} {stored : Nat → Nat}
    (read : ∀ document < index.documents,
      index.ranks.uint32At (document * 4) = .ok (stored document)) (document : Nat) :
    index.rank? document = .ok (rankIn index.documents stored document) := by
  by_cases inside : document < index.documents
  · simp [rank?, rankIn, inside, read document inside]
  · simp [rank?, rankIn, inside]

/-- What the walk through the stored ranks has established, with some documents still to come. -/
structure Walked (documents count : Nat) (stored : Nat → Nat) (left : List Nat) (unranked : Nat) :
    Prop where
  within : ∀ document ∈ left, document < documents
  ranked : ∀ document < documents, document ∉ left →
    stored document = noRank ∨ stored document < count
  every : unranked = 0 → ∀ document < documents, document ∉ left → stored document ≠ noRank
  room : unranked + left.length < sizeLimit

section Walk

variable {documents count document unranked : Nat} {stored : Nat → Nat} {rest : List Nat}

theorem walked_range (small : documents < 2 ^ 32) :
    Walked documents count stored (List.range documents) 0 where
  within _ := List.mem_range.mp
  ranked _ inside outside := absurd (List.mem_range.mpr inside) outside
  every _ _ inside outside := absurd (List.mem_range.mpr inside) outside
  room := by simpa using lt_sizeLimit small

variable (walked : Walked documents count stored (document :: rest) unranked)

include walked

theorem Walked.skip (none : stored document = noRank) :
    Walked documents count stored rest (unranked + 1) where
  within other member := walked.within other (List.mem_cons_of_mem document member)
  ranked other inside outside := by
    by_cases same : other = document
    · exact same ▸ Or.inl none
    · exact walked.ranked other inside (by simp [same, outside])
  every zero := absurd zero (Nat.succ_ne_zero unranked)
  room := by
    have room := walked.room
    rw [List.length_cons] at room
    omega

theorem Walked.take (some : stored document ≠ noRank) (below : stored document < count) :
    Walked documents count stored rest unranked where
  within other member := walked.within other (List.mem_cons_of_mem document member)
  ranked other inside outside := by
    by_cases same : other = document
    · exact same ▸ Or.inr below
    · exact walked.ranked other inside (by simp [same, outside])
  every zero other inside outside := by
    by_cases same : other = document
    · exact same ▸ some
    · exact walked.every zero other inside (by simp [same, outside])
  room := Nat.lt_trans (Nat.lt_succ_self _) walked.room

end Walk

/-- An accepted sort index ranks each of its documents by a value of the dictionary, or not at
all. -/
theorem decode_meets {v : View} {post : SortIndex → View → Prop}
    {refused : FormatError → View → Prop}
    (read : ∀ (index : SortIndex) rank w, index.name = name → index.postings = postings →
      index.dictionary = dictionary → index.documents < 2 ^ 32 →
        index.Ranks index.documents rank → post index w)
    (refusal : ∀ e w, refused e w) : Meets (decode name dictionary postings) v post refused := by
  unfold decode
  rw [Meets.bind]
  refine Decoder.uint32_meets (fun v₁ _ _ => ?_) (fun _ e => refusal e _)
  rw [Meets.bind]
  refine Decoder.table_meets (fun ranks v₂ _ _ room _ _ => ?_) (fun _ e => refusal e _)
  have few := Bytes.value_take_lt v.rest
  generalize Bytes.value (v.rest.take 4) = documents at room few ⊢
  have reads : ∀ document < documents,
      ranks.uint32At (document * 4) = .ok (ranks.entry 4 document) := by
    intro document inside
    exact View.uint32At_eq (by omega)
  dsimp only
  by_cases apart : postings.keys ≠ dictionary.size
  · rw [if_pos apart, Meets.bind]
    exact refusal _ _
  rw [if_neg apart, Meets.bind]
  refine (Meets.foldlM (fun left unranked _ =>
    Walked documents dictionary.size (ranks.entry 4) left unranked) (walked_range few) ?_).mono ?_
      fun _ _ => id
  · intro document rest unranked t walked
    rw [Meets.bind, Meets.lift (reads document (walked.within document List.mem_cons_self))]
    by_cases none : ranks.entry 4 document = noRank
    · rw [if_pos none]
      have room := walked.room
      rw [List.length_cons] at room
      exact (Meets.lift (addSizes_of_lt (by omega))).mpr (walked.skip none)
    · rw [if_neg none]
      split
      · exact refusal _ _
      · rename_i below
        exact Meets.pure.mpr (walked.take none (Nat.lt_of_not_le below))
  · intro unranked t walked
    refine read _ _ t rfl rfl rfl few (ranks_rankIn (rank?_eq reads) ?_ ?_)
    · exact fun document inside => walked.ranked document inside List.not_mem_nil
    · exact fun every document inside => walked.every every document inside List.not_mem_nil

theorem agrees_rankIn {index : SortIndex} {documents : Nat} {stored : Nat → Nat}
    (ranked : ∀ document, index.rank? document = .ok (rankIn documents stored document))
    (lists : index.postings.Lists documents True fun key =>
      (List.range documents).filter (rankIn documents stored · = some key))
    (ranks : ∀ document < documents, stored document = noRank ∨ stored document < index.rankCount)
    (unranked : index.unranked = 0 → ∀ document < documents, stored document ≠ noRank) :
    index.Agrees documents (rankIn documents stored) :=
  ⟨ranks_rankIn ranked ranks unranked, lists⟩

theorem decode_reads {documents : Nat} {stored : Nat → Nat} (small : documents < 2 ^ 32)
    (keys : postings.keys = dictionary.size)
    (ranks : ∀ document < documents, stored document = noRank ∨
      stored document < dictionary.size ∧ stored document < noRank) :
    Decoder.Reads (decode name dictionary postings)
      (Bytes.ofUInt32 documents ++
        (List.range documents).flatMap fun document => Bytes.ofUInt32 (stored document))
      fun index => index.name = name ∧ index.dictionary = dictionary ∧ index.postings = postings ∧
        index.documents = documents ∧
        (∀ document, index.rank? document = .ok (rankIn documents stored document)) ∧
        (index.unranked = 0 → ∀ document < documents, stored document ≠ noRank) := by
  have width : ((List.range documents).flatMap fun document =>
      Bytes.ofUInt32 (stored document)).length = documents * 4 := by
    rw [Bytes.length_flatMap_width fun _ _ => Bytes.length_ofUInt32 _, List.length_range]
  have fits : ∀ document < documents, stored document < 2 ^ 32 := fun document inside => by
    rcases ranks document inside with none | ⟨_, some⟩
    · exact none ▸ by decide
    · exact Nat.lt_trans some (by decide)
  unfold decode
  refine (Decoder.Reads.uint32 small).bind fun _ same => ?_
  rw [same]
  refine (Decoder.Reads.table width (by unfold sizeLimit; omega)).bind_last fun table written => ?_
  have read : ∀ document < documents, table.uint32At (document * 4) = .ok (stored document) :=
    fun document inside => by
      have here : document < (List.range documents).length := by simpa using inside
      have entry := View.uint32At_item stored written.1 here
      rw [List.getElem_range] at entry
      exact entry (fits document inside)
  dsimp only
  rw [if_neg (not_not_intro keys)]
  refine (Decoder.Reads.count (stored · = noRank) (by simpa using lt_sizeLimit small) ?_).bind_nil
      fun unranked counted => Decoder.Reads.pure ⟨rfl, rfl, rfl, rfl, fun document => ?_, ?_⟩
  · intro n room document listed
    have inside := List.mem_range.mp listed
    refine (Decoder.Reads.lift (read document inside)).bind_nil fun _ same => ?_
    rw [same]
    rcases ranks document inside with none | ⟨small, some⟩
    · rw [if_pos none, decide_eq_true none]
      exact Decoder.Reads.lift (addSizes_of_lt room)
    · rw [if_neg (Nat.ne_of_lt some), if_neg (Nat.not_le_of_lt small),
        decide_eq_false (Nat.ne_of_lt some)]
      exact Decoder.Reads.pure rfl
  · exact rank?_eq read document
  · intro every document inside none
    have counted := every.symm.trans counted
    have some : 0 < (List.range documents).countP (stored · = noRank) :=
      List.countP_pos_iff.mpr ⟨document, List.mem_range.mpr inside, decide_eq_true none⟩
    omega

/-- Written ranks are read back beside the dictionary and the postings that they rank by. -/
theorem decode_files {documents : Nat} {stored : Nat → Nat} {values : List Bytes}
    (small : documents < 2 ^ 32) (holds : dictionary.Holds values)
    (keys : postings.keys = values.length)
    (lists : postings.Lists documents True fun key =>
      (List.range documents).filter (rankIn documents stored · = some key))
    (ranks : ∀ document < documents, stored document = noRank ∨
      stored document < values.length ∧ stored document < noRank) :
    Decoder.Reads (decode name dictionary postings)
      (Bytes.ofUInt32 documents ++
        (List.range documents).flatMap fun document => Bytes.ofUInt32 (stored document))
      fun index => index.name = name ∧ index.documents = documents ∧
        index.Files documents values (rankIn documents stored) := by
  have reads := @decode_reads name dictionary postings documents stored small
    (keys.trans holds.size.symm) (holds.size ▸ ranks)
  apply reads.mono
  rintro index ⟨named, rfl, rfl, size, ranked, unranked⟩
  refine ⟨named, size, holds, keys, agrees_rankIn ranked lists ?_ unranked⟩
  intro document inside
  rw [rankCount, holds.size]
  exact (ranks document inside).imp id And.left

end SortIndex

end DocStore
