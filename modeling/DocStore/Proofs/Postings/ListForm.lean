import DocStore.Proofs.Postings.Listing

/-! Postings stored as document numbers. -/
namespace DocStore

/-- Pieces that follow each other cover what lies between the first and the last. -/
theorem Ascends.covers {offset : Nat → Nat} {count first last position : Nat}
    (ascends : Ascends offset count) (order : first ≤ last) (inside : last < count) :
    (offset first ≤ position ∧ position < offset (last + 1)) ↔
      ∃ key, first ≤ key ∧ key ≤ last ∧ offset key ≤ position ∧ position < offset (key + 1) := by
  constructor
  · rintro ⟨lower, upper⟩
    induction order with
    | refl => exact ⟨first, Nat.le_refl _, Nat.le_refl _, lower, upper⟩
    | @step last order ih =>
      by_cases earlier : position < offset (last + 1)
      · obtain ⟨key, from_, upTo, piece⟩ := ih (by omega) earlier
        exact ⟨key, from_, Nat.le_succ_of_le upTo, piece⟩
      · exact ⟨last + 1, Nat.le_succ_of_le order, Nat.le_refl _, Nat.le_of_not_lt earlier, upper⟩
  · rintro ⟨key, from_, upTo, lower, upper⟩
    have low : offset first ≤ offset key := ascends.mono from_ (by omega)
    have high : offset (key + 1) ≤ offset (last + 1) := ascends.mono (by omega) inside
    omega

namespace PostingList

structure Sound (p : PostingList) (documents : Nat) (offset document : Nat → Nat) : Prop where
  ascends : Ascends offset p.keys
  offsets : ∀ entry ≤ p.keys, p.offsets.uint32At (entry * 4) = .ok (offset entry)
  stored : ∀ position < offset p.keys, p.documents.uint32At (position * 4) = .ok (document position)
  below : ∀ position < offset p.keys, document position < documents

def bucket (keys : Nat) (offset document : Nat → Nat) (key : Nat) : List Nat :=
  if key < keys then (List.range' (offset key) (offset (key + 1) - offset key)).map document else []

variable {p : PostingList} {documents first last key i : Nat} {offset document : Nat → Nat}

theorem bucket_past {keys : Nat} (past : keys ≤ key) : bucket keys offset document key = [] :=
  if_neg (Nat.not_lt_of_le past)

theorem mem_bucket : i ∈ bucket p.keys offset document key ↔
    key < p.keys ∧ ∃ position, offset key ≤ position ∧ position < offset (key + 1) ∧
      document position = i := by
  unfold bucket
  split
  · rename_i inside
    simp only [List.mem_map, List.mem_range'_1, inside, true_and]
    refine exists_congr fun position => ?_
    constructor
    · rintro ⟨⟨lower, upper⟩, same⟩
      exact ⟨lower, by omega, same⟩
    · rintro ⟨lower, upper, same⟩
      exact ⟨⟨lower, by omega⟩, same⟩
  · simp [*]

theorem documentsBetween_eq (sound : p.Sound documents offset document) (order : first ≤ last)
    (inside : last < p.keys) : p.documentsBetween first last =
      .ok ((List.range' (offset first) (offset (last + 1) - offset first)).map document) := by
  have top := sound.ascends.mono (Nat.succ_le_of_lt inside) (Nat.le_refl _)
  simp only [documentsBetween, sound.offsets first (by omega), sound.offsets (last + 1) inside,
    ok_bind]
  refine mapM_eq_ok fun position listed => sound.stored position ?_
  have := List.mem_range'_1.mp listed
  simp only [Nat.succ_eq_add_one] at top
  omega

theorem mem_between (sound : p.Sound documents offset document) (order : first ≤ last)
    (inside : last < p.keys) :
    i ∈ (List.range' (offset first) (offset (last + 1) - offset first)).map document ↔
      ∃ key, first ≤ key ∧ key ≤ last ∧ i ∈ bucket p.keys offset document key := by
  have low := sound.ascends.mono (Nat.le_succ_of_le order) inside
  simp only [List.mem_map, List.mem_range'_1, mem_bucket]
  constructor
  · rintro ⟨position, ⟨lower, upper⟩, same⟩
    obtain ⟨key, from_, upTo, piece⟩ :=
      (sound.ascends.covers order inside).mp ⟨lower, show position < offset (last + 1) by omega⟩
    exact ⟨key, from_, upTo, by omega, position, piece.1, piece.2, same⟩
  · rintro ⟨key, from_, upTo, _, position, lower, upper, same⟩
    have := (sound.ascends.covers order inside).mpr ⟨key, from_, upTo, lower, upper⟩
    exact ⟨position, by omega, same⟩

theorem lt_of_mem_bucket (sound : p.Sound documents offset document)
    (member : i ∈ bucket p.keys offset document key) : i < documents := by
  obtain ⟨inside, position, _, upper, same⟩ := mem_bucket.mp member
  have top : offset (key + 1) ≤ offset p.keys := sound.ascends.mono inside (Nat.le_refl _)
  exact same ▸ sound.below position (Nat.lt_of_lt_of_le upper top)

theorem uniteBetween_eq {dest : ArraySet} (sound : p.Sound documents offset document)
    (truthful : Prop) (roomy : dest.Roomy documents) (order : first ≤ last) (inside : last < p.keys) :
    ∃ answer, p.uniteBetween dest first last = .ok answer ∧
      Added truthful (fun i => ∃ key, first ≤ key ∧ key ≤ last ∧
        i ∈ bucket p.keys offset document key) dest answer := by
  have between := fun i => mem_between (i := i) sound order inside
  have read := documentsBetween_eq sound order inside
  generalize (List.range' (offset first) (offset (last + 1) - offset first)).map document = found
    at between read
  obtain ⟨t, filled, size, trims, members⟩ := @ArraySet.foldlM_insert dest found fun i member => by
    obtain ⟨key, _, _, listed⟩ := (between i).mp member
    exact Nat.lt_of_lt_of_le (lt_of_mem_bucket sound listed) roomy.room
  refine ⟨(!found.isEmpty, t), by rw [uniteBetween, read, ok_bind, filled]; rfl, ?_⟩
  refine ⟨size, trims roomy.trimmed, fun i => ?_, fun none => ?_, fun _ => ?_⟩
  · rw [members, between, or_comm]
  · obtain rfl : found = [] := by simpa using none
    exact (Except.ok.inj filled).symm
  · cases found with
    | nil => simpa using fun i => (not_congr (between i)).mp List.not_mem_nil
    | cons i rest => simpa using ⟨i, (between i).mp List.mem_cons_self⟩

theorem documentsOf_eq (sound : p.Sound documents offset document) (key : Nat) (filter : DocSet) :
    p.documentsOf key filter =
      .ok ((bucket p.keys offset document key).filter filter.contains) := by
  by_cases inside : key < p.keys
  · simp only [documentsOf, if_pos inside, documentsBetween_eq sound (Nat.le_refl key) inside,
      ok_bind, bucket]
    rfl
  · simp only [documentsOf, if_neg inside, bucket]
    rfl

theorem Sound.unites (sound : p.Sound documents offset document) (truthful : Prop)
    {dest : ArraySet} (roomy : dest.Roomy documents) (first last : Nat) :
    ∃ answer, (Postings.list p).uniteBetween dest first last = .ok answer ∧
      Added truthful (fun i => ∃ key, first ≤ key ∧ key ≤ last ∧
        i ∈ bucket p.keys offset document key) dest answer := by
  refine Postings.unites_of_inside roomy.trimmed (fun _ => bucket_past)
    (fun last order inside => ?_) last
  simp only [Postings.keys] at inside
  rw [Postings.uniteBetween, if_neg (by simp only [Postings.keys]; omega)]
  simp only [Postings.keys, subSizes_of_le (Nat.one_le_of_lt inside), ok_bind,
    Nat.min_eq_left (show last ≤ p.keys - 1 by omega)]
  exact uniteBetween_eq sound truthful roomy order inside

/-- Stored lists list the documents of each key. -/
theorem Sound.lists (sound : p.Sound documents offset document) (truthful : Prop) :
    (Postings.list p).Lists documents truthful (bucket p.keys offset document) where
  below _ _ := lt_of_mem_bucket sound
  keys _ := bucket_past
  occupied _ := bucket_past
  documentsOf key filter _ := documentsOf_eq sound key filter
  uniteBetween _ first last sized := sound.unites truthful sized.roomy first last

theorem decode_meets {v : View} {post : PostingList → View → Prop}
    {refused : FormatError → View → Prop}
    (read : ∀ p offset document w, Sound p documents offset document → post p w)
    (refusal : ∀ e w, refused e w) : Meets (decode documents) v post refused := by
  unfold decode
  rw [Meets.bind]
  refine Decoder.uint32_meets (fun v₁ _ _ => ?_) (fun _ e => refusal e _)
  rw [Decoder.offsetCount_eq (Bytes.value_take_lt _), pure_bind, Meets.bind]
  refine Decoder.table_meets (fun offsets v₂ _ _ room _ _ => ?_) (fun _ e => refusal e _)
  rw [Meets.bind]
  refine Decoder.lastOffset_meets (fun entry inside => View.uint32At_entry room inside)
    (fun ascends => ?_) (fun _ e => refusal e _)
  rw [Meets.bind]
  refine Decoder.tableSize_meets (fun _ => ?_) (fun _ e => refusal e _)
  rw [Meets.bind]
  refine Decoder.slice_meets (fun stored v₃ _ _ size _ _ => ?_) (fun _ e => refusal e _)
  have answers : ∀ position < offsets.entry 4 (Bytes.value (v.rest.take 4)),
      stored.uint32At (position * 4) = .ok (stored.entry 4 position) := fun position inside =>
    View.uint32At_eq (by omega)
  rw [Meets.bind]
  -- what was checked is what is no longer left to check
  refine (Meets.forM (fun left w => w = v₃ ∧
    (∀ position ∈ left, position < offsets.entry 4 (Bytes.value (v.rest.take 4))) ∧
    ∀ position < offsets.entry 4 (Bytes.value (v.rest.take 4)), position ∉ left →
      stored.entry 4 position < documents) ⟨rfl, fun _ => List.mem_range.mp, fun position inside outside =>
        absurd (List.mem_range.mpr inside) outside⟩ ?_).mono (fun _ w checked => ?_) fun _ _ => id
  · rintro position rest _ ⟨rfl, within, checked⟩
    rw [Meets.bind, Meets.lift (answers position (within position List.mem_cons_self))]
    split
    · exact refusal _ _
    · rename_i below
      refine Meets.pure.mpr ⟨rfl, fun other later => within other (List.mem_cons_of_mem _ later),
        fun other inside outside => ?_⟩
      by_cases same : other = position
      · exact same ▸ Nat.lt_of_not_le below
      · exact checked other inside (by simp [same, outside])
  · obtain ⟨rfl, _, checked⟩ := checked
    exact read _ _ (stored.entry 4) w ⟨ascends, fun entry inside => View.uint32At_entry room inside,
      answers, fun position inside => checked position inside List.not_mem_nil⟩

theorem bucket_written (buckets : List (List Nat)) :
    bucket buckets.length (fun entry => ((buckets.map List.length).take entry).sum)
      (buckets.flatten.getD · 0) = fun key => buckets.getD key [] := funext fun key => by
  unfold bucket
  split
  · rename_i inside
    have next := List.sum_take_succ (buckets.map List.length) key (by simpa using inside)
    have bound := sum_take_le (buckets.map List.length) (key + 1)
    have whole : (buckets.map List.length).sum = buckets.flatten.length := List.length_flatten.symm
    rw [List.getElem_map] at next
    dsimp only
    rw [next, Nat.add_sub_cancel_left, map_range'_getD (by omega),
      flatten_drop_take buckets inside, List.getD_eq_getElem _ _ inside]
  · rename_i past
    rw [List.getD_eq_default _ _ (Nat.le_of_not_lt past)]

/-- Written lists are read back, key by key. -/
theorem decode_reads {buckets : List (List Nat)} (keys : buckets.length < 2 ^ 32)
    (total : buckets.flatten.length < 2 ^ 32)
    (below : ∀ bucket ∈ buckets, ∀ i ∈ bucket, i < documents)
    (fits : ∀ bucket ∈ buckets, ∀ i ∈ bucket, i < 2 ^ 32) :
    Decoder.Reads (decode documents) (Bytes.ofUInt32 buckets.length ++
      (Bytes.offsets (buckets.map List.length)).flatMap Bytes.ofUInt32 ++
      buckets.flatten.flatMap Bytes.ofUInt32) fun p => p.keys = buckets.length ∧
        ∃ offset document, p.Sound documents offset document ∧
          bucket p.keys offset document = fun key => buckets.getD key [] := by
  have sum : (buckets.map List.length).sum = buckets.flatten.length := List.length_flatten.symm
  have count : (buckets.map List.length).length = buckets.length := List.length_map _
  have table : ((Bytes.offsets (buckets.map List.length)).flatMap Bytes.ofUInt32).length =
      (buckets.length + 1) * 4 := by
    rw [Bytes.length_flatMap_width fun _ _ => Bytes.length_ofUInt32 _, Bytes.length_offsets, count]
  have list : (buckets.flatten.flatMap Bytes.ofUInt32).length = buckets.flatten.length * 4 :=
    Bytes.length_flatMap_width fun _ _ => Bytes.length_ofUInt32 _
  have each : ∀ i ∈ buckets.flatten, i < documents ∧ i < 2 ^ 32 := fun i inside => by
    obtain ⟨bucket, listed, member⟩ := List.mem_flatten.mp inside
    exact ⟨below bucket listed i member, fits bucket listed i member⟩
  unfold decode
  rw [List.append_assoc]
  refine (Decoder.Reads.uint32 keys).bind fun _ same => ?_
  subst same
  rw [Decoder.offsetCount_eq keys, pure_bind]
  refine (Decoder.Reads.table table (by unfold sizeLimit; omega)).bind fun offsets stored => ?_
  have answers : ∀ entry ≤ buckets.length, offsets.uint32At (entry * 4) =
      .ok ((buckets.map List.length).take entry).sum := fun entry inside =>
    View.uint32At_offsets stored.1 (sum ▸ total) (count ▸ inside)
  refine (Decoder.Reads.lastOffset answers (count ▸ ascends_sums _)).bind_nil fun _ same => ?_
  rw [same, List.take_of_length_le (Nat.le_of_eq count), sum, Decoder.tableSize,
    if_pos (by unfold sizeLimit; omega)]
  refine (Decoder.Reads.pure rfl).bind_nil fun _ size => ?_
  rw [← size, ← list]
  refine (Decoder.Reads.slice _).bind_last fun listed written => ?_
  have reads : ∀ position < buckets.flatten.length,
      listed.uint32At (position * 4) = .ok (buckets.flatten.getD position 0) := fun position inside => by
    rw [List.getD_eq_getElem _ _ inside]
    exact View.uint32At_item (fun i => i) written.1 inside (each _ (List.getElem_mem inside)).2
  have documentBelow : ∀ position < buckets.flatten.length,
      buckets.flatten.getD position 0 < documents := fun position inside => by
    rw [List.getD_eq_getElem _ _ inside]
    exact (each _ (List.getElem_mem inside)).1
  refine (Decoder.Reads.forM fun position within => ?_).bind_nil fun _ _ => Decoder.Reads.pure ?_
  · have inside := List.mem_range.mp within
    refine (Decoder.Reads.lift (reads position inside)).bind_nil fun _ same => ?_
    rw [same, if_neg (Nat.not_le_of_lt (documentBelow position inside))]
    exact Decoder.Reads.pure trivial
  · have whole : ((buckets.map List.length).take buckets.length).sum = buckets.flatten.length := by
      rw [List.take_of_length_le (Nat.le_of_eq count), sum]
    refine ⟨rfl, _, _, ⟨count ▸ ascends_sums _, answers, ?_, ?_⟩, bucket_written buckets⟩
    · exact fun position inside => reads position (whole ▸ inside)
    · exact fun position inside => documentBelow position (whole ▸ inside)

end PostingList

end DocStore
