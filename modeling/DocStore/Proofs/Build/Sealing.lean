import DocStore.Proofs.Build.Documents
import DocStore.Proofs.Format.Regions
import DocStore.Proofs.Postings.Choosing

/-! Sealing: every column is collected, formed and framed, and its ranks and buckets say which
documents have which values. -/
namespace DocStore

namespace PostingsBuilder

variable {b : PostingsBuilder}

/-- Over 32-bit numbers every form can be written. -/
theorem form_exists (small : b.documents ≤ 2 ^ 32) (encoding : PostingsEncoding) :
    ∃ stored, b.form encoding = .ok stored := by
  have room : b.documents + 63 < sizeLimit := by
    unfold sizeLimit
    omega
  cases encoding with
  | list => exact ⟨_, rfl⟩
  | bits => exact ⟨b.normalize.bitForm (wordCount b.documents), by rw [form, wordsFor_eq room]; rfl⟩

theorem choice_exists (keys : b.keys < 2 ^ 32) (small : b.documents ≤ 2 ^ 32) :
    ∃ encoding, b.choice = .ok encoding := by
  have few : wordCount b.documents < 2 ^ 27 := by
    unfold wordCount
    omega
  have area : b.keys * wordCount b.documents < 2 ^ 32 * 2 ^ 27 :=
    Nat.mul_lt_mul'' keys few
  have fits : bitsLength b.keys b.documents < sizeLimit := by
    unfold bitsLength sizeLimit
    omega
  rw [choice, bitFormLength_eq (by unfold sizeLimit; omega), if_pos fits]
  exact ⟨_, rfl⟩

end PostingsBuilder

namespace Column

variable {c : Column} {documents document place key i : Nat} {value : Bytes}
  {done rest : List (Nat × Bytes)} {b : PostingsBuilder} {entries : List (Nat × FieldEntry)}

def posted (c : Column) (done : List (Nat × Bytes)) (key : Nat) : List Nat :=
  (done.filter fun posting => c.values.rank? posting.2 = some key).map Prod.fst

theorem mem_posted : i ∈ c.posted done key ↔
    ∃ value, (i, value) ∈ done ∧ c.values.rank? value = some key := by
  simp [posted]

structure Collected (c : Column) (documents : Nat) (done : List (Nat × Bytes))
    (b : PostingsBuilder) : Prop where
  documents : b.documents = documents
  keys : b.keys = c.values.size
  listed : ∀ key, b.buckets.toList.getD key [] = c.posted done key

theorem collected_empty (c : Column) (documents : Nat) :
    c.Collected documents [] (.empty c.values.size documents) where
  documents := rfl
  keys := by simp [PostingsBuilder.keys, PostingsBuilder.empty]
  listed key := by
    rw [PostingsBuilder.empty, Array.toList_replicate, List.getD_eq_getElem?_getD,
      List.getElem?_replicate]
    split <;> rfl

theorem Collected.put (collected : c.Collected documents done b)
    (known : c.values.rank? value = some place) (below : document < documents)
    (small : documents ≤ 2 ^ 32) :
    ∃ b', b.put place document = .ok b' ∧ c.Collected documents (done ++ [(document, value)]) b' := by
  obtain ⟨inside, _⟩ := List.idxOf?_eq_some_iff.mp known
  obtain ⟨next, put, sameDocuments, sameKeys, listed⟩ := PostingsBuilder.put_eq_ok
    (Nat.lt_of_lt_of_eq inside collected.keys.symm) (collected.documents.symm ▸ below)
    (Nat.lt_of_lt_of_le below small)
  refine ⟨next, put, sameDocuments.trans collected.documents, sameKeys.trans collected.keys, ?_⟩
  intro key
  rw [listed, collected.listed]
  by_cases same : place = key
  · simp [posted, known, same]
  · simp [posted, known, same]

theorem collect_steps (known : ∀ posting ∈ rest, ∃ rank, c.values.rank? posting.2 = some rank)
    (below : ∀ posting ∈ rest, posting.1 < documents) (small : documents ≤ 2 ^ 32)
    (collected : c.Collected documents done b) :
    ∃ b', rest.foldlM (fun collected (document, value) =>
        match c.values.rank? value with
        | some rank => (collected.put rank document : Except Fault PostingsBuilder)
        | none => refuse (BuildError.field c.name .unknownValue)) b =
      (.ok b' : Except (Failure BuildError) PostingsBuilder) ∧
        c.Collected documents (done ++ rest) b' := by
  induction rest generalizing done b with
  | nil => exact ⟨b, rfl, by simpa using collected⟩
  | cons posting rest ih =>
    obtain ⟨rank, here⟩ := known posting List.mem_cons_self
    obtain ⟨next, put, step⟩ := collected.put here (below posting List.mem_cons_self) small
    obtain ⟨last, steps, all⟩ := ih (fun other later => known other (List.mem_cons_of_mem _ later))
      (fun other later => below other (List.mem_cons_of_mem _ later)) step
    refine ⟨last, ?_, by simpa using all⟩
    rw [List.foldlM_cons]
    simp only [here, put, lift_ok, ok_bind]
    exact steps

/-- The rank of a document, by its last value. -/
def rank (c : Column) (document : Nat) : Option Nat := (c.lastValue? document).bind c.values.rank?

def Passes (c : Column) (test : ValueTest) (document : Nat) : Prop :=
  ∃ value, (document, value) ∈ c.postings ∧ test.holds value = true

def carriers (c : Column) (documents key : Nat) : List Nat :=
  (List.range documents).filter fun i =>
    c.postings.any fun posting => posting.1 = i && c.values.rank? posting.2 = some key

/-- What indexing reads from a column: its values in order, and the existing documents under
each of them. -/
structure Content (c : Column) (documents : Nat) : Prop where
  ascending : c.values.values.Pairwise (· < ·)
  values : ∀ value, value ∈ c.values.values ↔ ∃ document, (document, value) ∈ c.postings
  below : ∀ posting ∈ c.postings, posting.1 < documents
  small : documents ≤ 2 ^ 32

section Content

variable (content : c.Content documents)

include content

theorem rank?_exists {posting : Nat × Bytes} (posted : posting ∈ c.postings) :
    ∃ rank, c.values.rank? posting.2 = some rank := by
  have member := (content.values posting.2).mpr ⟨posting.1, posted⟩
  obtain ⟨rank, inside, same⟩ := List.getElem_of_mem member
  exact ⟨rank, same ▸ idxOf?_getElem content.ascending inside⟩

/-- Every value has a rank, so that collecting a column is refused nothing. -/
theorem collect_eq_ok : ∃ b, c.collect documents = .ok b ∧ c.Collected documents c.postings b :=
  collect_steps (fun _ posted => rank?_exists content posted) content.below content.small
    (collected_empty c documents)

theorem mem_carriers : i ∈ c.carriers documents key ↔
    ∃ value, (i, value) ∈ c.postings ∧ c.values.rank? value = some key := by
  simp only [carriers, List.mem_filter, List.mem_range, List.any_eq_true, Bool.and_eq_true,
    decide_eq_true_eq]
  constructor
  · rintro ⟨_, ⟨_, value⟩, posted, rfl, known⟩
    exact ⟨value, posted, known⟩
  · rintro ⟨value, posted, known⟩
    exact ⟨content.below _ posted, (i, value), posted, rfl, known⟩

theorem carries_carriers :
    FilterIndex.Carries c.values.values (c.carriers documents) = c.Passes := by
  funext test i
  apply propext
  constructor
  · rintro ⟨key, inside, passes, member⟩
    obtain ⟨value, posted, known⟩ := (mem_carriers content).mp member
    obtain ⟨_, same, _⟩ := List.idxOf?_eq_some_iff.mp known
    exact ⟨value, posted, same ▸ passes⟩
  · rintro ⟨value, posted, passes⟩
    obtain ⟨key, known⟩ := rank?_exists content posted
    obtain ⟨inside, same, _⟩ := List.idxOf?_eq_some_iff.mp known
    refine ⟨key, inside, ?_, (mem_carriers content).mpr ⟨value, posted, known⟩⟩
    rw [same]
    exact passes

variable (collected : c.Collected documents c.postings b)

include collected

theorem Collected.below : ∀ listed ∈ b.buckets.toList, ∀ i ∈ listed, i < b.documents := by
  intro listed inside i member
  obtain ⟨key, there, same⟩ := List.getElem_of_mem inside
  have found : i ∈ b.buckets.toList.getD key [] := by
    rw [List.getD_eq_getElem?_getD, List.getElem?_eq_getElem there, same]
    exact member
  rw [collected.listed] at found
  obtain ⟨value, posted, _⟩ := mem_posted.mp found
  rw [collected.documents]
  exact content.below _ posted

theorem bucket_eq_carriers : b.bucket = c.carriers documents := by
  funext key
  rw [PostingsBuilder.bucket_eq]
  apply eq_of_ascending (eraseReps_mergeSort _).1 (List.pairwise_lt_range.filter _)
  intro i
  rw [(eraseReps_mergeSort _).2 i, collected.listed, mem_posted]
  exact (mem_carriers content).symm

end Content

/-- What sealing makes of the postings that it collected. -/
theorem form_of_collect (collect : c.collect documents = .ok b) : c.form documents = (do
    let stored ← b.form (← b.choice)
    return Bytes.counted (Value.textBytes c.name) ++
      (c.values.form c.indexing.dictionaryKind ++ stored) ++
        if c.indexing.isSortable then c.ranksForm documents else []) := by
  simp only [form, indexForm, collect, ok_bind, Option.elim_none, bind_assoc, pure_bind]

structure Sealable (c : Column) (documents : Nat) : Prop where
  ascending : c.values.values.Pairwise (· < ·)
  values : ∀ value, value ∈ c.values.values ↔ ∃ document, (document, value) ∈ c.postings
  below : ∀ posting ∈ c.postings, posting.1 < documents
  small : documents ≤ Builder.documentLimit
  uniform : c.indexing.hasWidth = true →
    ∀ v ∈ c.values.values, ∀ w ∈ c.values.values, v.length = w.length
  single : c.indexing.isSortable = true → ∀ document v w, (document, v) ∈ c.postings →
    (document, w) ∈ c.postings → v = w

section Sealable

variable (sealable : c.Sealable documents)

include sealable

theorem Sealable.content : c.Content documents where
  ascending := sealable.ascending
  values := sealable.values
  below := sealable.below
  small := Nat.le_trans sealable.small (by decide)

theorem lastValue?_eq (sortable : c.indexing.isSortable = true) :
    c.lastValue? document = some value ↔ (document, value) ∈ c.postings := by
  unfold lastValue?
  constructor
  · intro known
    obtain ⟨front, back, split, _⟩ := List.lookup_eq_some_iff.mp known
    apply List.mem_reverse.mp
    rw [split]
    exact List.mem_append_right _ List.mem_cons_self
  · intro posted
    cases known : c.postings.reverse.lookup document with
    | none =>
      have apart := List.lookup_eq_none_iff.mp known _ (List.mem_reverse.mpr posted)
      simp at apart
    | some other =>
      obtain ⟨front, back, split, _⟩ := List.lookup_eq_some_iff.mp known
      have also : (document, other) ∈ c.postings := by
        apply List.mem_reverse.mp
        rw [split]
        exact List.mem_append_right _ List.mem_cons_self
      rw [sealable.single sortable document value other posted also]

theorem rank_eq (sortable : c.indexing.isSortable = true) :
    c.rank document = some key ↔ ∃ value, (document, value) ∈ c.postings ∧
      c.values.rank? value = some key := by
  simp only [rank, Option.bind_eq_some_iff, lastValue?_eq sealable sortable]

theorem carriers_eq_filter (sortable : c.indexing.isSortable = true) :
    c.carriers documents = fun key => (List.range documents).filter (c.rank · = some key) := by
  funext key
  apply eq_of_ascending (List.pairwise_lt_range.filter _) (List.pairwise_lt_range.filter _)
  intro i
  change i ∈ c.carriers documents key ↔ _
  rw [mem_carriers sealable.content, List.mem_filter, List.mem_range, decide_eq_true_eq, rank_eq sealable sortable]
  constructor
  · rintro ⟨value, posted, known⟩
    exact ⟨sealable.below _ posted, value, posted, known⟩
  · exact And.right

variable (short : (c.values.form c.indexing.dictionaryKind).length < 2 ^ 32)

include short

theorem size_lt : c.values.size < SortIndex.noRank := by
  have size := Dictionary.size_le_form sealable.ascending c.indexing.dictionaryKind
  unfold SortIndex.noRank
  omega

theorem rank_lt (known : c.rank document = some key) :
    document < documents ∧ key < c.values.size ∧ key < SortIndex.noRank := by
  obtain ⟨value, last, found⟩ := Option.bind_eq_some_iff.mp known
  obtain ⟨inside, _⟩ := List.idxOf?_eq_some_iff.mp found
  refine ⟨?_, inside, Nat.lt_trans inside (size_lt sealable short)⟩
  obtain ⟨front, back, split, _⟩ := List.lookup_eq_some_iff.mp last
  refine sealable.below (document, value) (List.mem_reverse.mp ?_)
  rw [split]
  exact List.mem_append_right _ List.mem_cons_self

theorem rankIn_rankOf : SortIndex.rankIn documents c.rankOf = c.rank := by
  funext document
  have same : c.rankOf document = (c.rank document).getD SortIndex.noRank := rfl
  cases known : c.rank document with
  | none =>
    rw [known] at same
    simp [SortIndex.rankIn, same]
  | some key =>
    obtain ⟨inside, _, below⟩ := rank_lt sealable short known
    rw [known, Option.getD_some] at same
    rw [SortIndex.rankIn, same, if_pos ⟨inside, Nat.ne_of_lt below⟩]

/-- A sealed body is made of the name, the dictionary, the postings and the ranks. -/
theorem form_eq_ok : ∃ b encoding stored body, c.Collected documents c.postings b ∧
    b.form encoding = .ok stored ∧ c.form documents = .ok body ∧
    body = Bytes.counted (Value.textBytes c.name) ++
      (c.values.form c.indexing.dictionaryKind ++ stored) ++
        if c.indexing.isSortable then c.ranksForm documents else [] := by
  obtain ⟨b, collect, collected⟩ := collect_eq_ok sealable.content
  have size := size_lt sealable short
  have keys : b.keys < 2 ^ 32 := by
    rw [collected.keys]
    exact Nat.lt_trans size (by decide)
  have below : b.documents ≤ 2 ^ 32 := collected.documents ▸ sealable.content.small
  obtain ⟨encoding, chosen⟩ := PostingsBuilder.choice_exists keys below
  obtain ⟨stored, formed⟩ := PostingsBuilder.form_exists below encoding
  refine ⟨b, encoding, stored, _, collected, formed, ?_, rfl⟩
  simp only [form_of_collect collect, chosen, formed, lift_ok, ok_bind, pure_eq_ok]

theorem writable : Dictionary.Writable c.values c.indexing.dictionaryKind := by
  refine Dictionary.writable_of_short sealable.ascending (fun kind => ?_) short
  apply ValueSet.uniform_of_alike
  apply sealable.uniform
  revert kind
  rcases c.indexing with ⟨_ | _ | _ | _, _ | _⟩ <;> decide

/-- The sealed body of a column is read back as its indexes. -/
theorem body_reads {body : Bytes} (formed : c.form documents = .ok body)
    (fits : body.length + 4 < 2 ^ 32) :
    Decoder.Reads (Segment.decodeBody c.indexing.segmentKind documents) body fun segment =>
      segment.Indexes c.indexing.segmentKind c.name documents c.values.values
        (c.carriers documents) c.rank := by
  obtain ⟨b, encoding, stored, same, collected, written, sealed, layout⟩ :=
    form_eq_ok sealable short
  obtain rfl := Except.ok.inj (formed.symm.trans sealed)
  have size := size_lt sealable short
  have sorts := Indexing.isSort_segmentKind c.indexing
  have own := rankIn_rankOf sealable short
  have lengths := fits
  rw [layout] at lengths
  simp only [List.length_append, Bytes.counted, Bytes.length_ofUInt32] at lengths
  have reads := @Segment.decodeIndex_reads c.indexing.segmentKind c.name c.values b stored c.rankOf
    c.indexing.dictionaryKind encoding (by omega) (Indexing.dictionaryKind?_segmentKind c.indexing)
    (writable sealable short) written (by omega) collected.keys
    (Nat.lt_trans size (by decide))
    (collected.documents ▸ Nat.lt_of_le_of_lt sealable.small (by decide))
    (Collected.below sealable.content collected) ?_ ?_
  · rw [collected.documents, own, sorts, bucket_eq_carriers sealable.content collected] at reads
    have index : Segment.decodeBody c.indexing.segmentKind documents =
        Segment.decodeIndex c.indexing.segmentKind documents := by
      rcases c.indexing with ⟨_ | _ | _ | _, _ | _⟩ <;> rfl
    rw [index, layout]
    exact reads
  · intro _ document _
    have same : c.rankOf document = (c.rank document).getD SortIndex.noRank := rfl
    cases known : c.rank document with
    | none =>
      rw [known, Option.getD_none] at same
      exact Or.inl same
    | some key =>
      rw [known, Option.getD_some] at same
      exact Or.inr (same ▸ (rank_lt sealable short known).2)
  · intro sortable
    rw [collected.documents, own]
    rw [bucket_eq_carriers sealable.content collected]
    exact carriers_eq_filter sealable (sorts ▸ sortable)

end Sealable

end Column

end DocStore
