import DocStore.Postings.Builder
import DocStore.Proofs.Ascending
import DocStore.Proofs.Postings.Listing

/-! Postings stored as bit vectors. Bits at and past the number of documents stand for no
document; they only make a lookup say that it found some. -/
namespace DocStore

/-- Numbers word by word, as far as they are below a size. -/
theorem filter_words {count size : Nat} (room : size ≤ count * 64) (passes : Nat → Bool) :
    ((List.range count).flatMap fun i => ((List.range 64).map (i * 64 + ·)).filter passes).filter
      (· < size) = (List.range size).filter passes := by
  obtain ⟨rest, whole⟩ := Nat.exists_eq_add_of_le room
  have low : (List.range size).filter (fun i => decide (i < size) && passes i) =
      (List.range size).filter passes :=
    List.filter_congr fun i inside => by simp [List.mem_range.mp inside]
  have none : ((List.range rest).map (size + ·)).filter (fun i => decide (i < size) && passes i) =
      [] := by
    refine List.filter_eq_nil_iff.mpr fun i inside => ?_
    obtain ⟨k, _, rfl⟩ := List.mem_map.mp inside
    rw [decide_eq_false (by omega), Bool.false_and]
    exact Bool.false_ne_true
  rw [← List.filter_flatMap, ArraySet.range_flatMap, whole, List.filter_filter, List.range_add,
    List.filter_append, low, none, List.append_nil]

namespace PostingBits

structure Sound (p : PostingBits) (documents : Nat) (read : Nat → Nat → Nat) : Prop where
  documentCount : p.documentCount = documents
  small : documents + 63 < sizeLimit
  width : p.wordsPerKey = wordCount documents
  stored : ∀ key < p.keys, ∀ index < wordCount documents,
    p.words.uint64At ((key * p.wordsPerKey + index) * 8) = .ok (read key index)

def hasBit (read : Nat → Nat → Nat) (key i : Nat) : Bool :=
  Word.hasBit (UInt64.ofNat (read key (i / 64))) (i % 64)

def bucket (keys documents : Nat) (read : Nat → Nat → Nat) (key : Nat) : List Nat :=
  if key < keys then (List.range documents).filter (hasBit read key) else []

def Clean (p : PostingBits) (documents : Nat) (read : Nat → Nat → Nat) : Prop :=
  ∀ key < p.keys, ∀ i, i / 64 < wordCount documents → hasBit read key i = true → i < documents

variable {p : PostingBits} {documents key i : Nat} {read : Nat → Nat → Nat} {truthful : Prop}

theorem bucket_past {keys : Nat} (past : keys ≤ key) : bucket keys documents read key = [] :=
  if_neg (Nat.not_lt_of_le past)

theorem mem_bucket {keys : Nat} : i ∈ bucket keys documents read key ↔
    key < keys ∧ i < documents ∧ hasBit read key i = true := by
  unfold bucket
  split
  · rename_i inside
    rw [List.mem_filter, List.mem_range]
    simp [inside]
  · simp [*]

theorem word_eq (sound : p.Sound documents read) (inside : key < p.keys) {index : Nat}
    (within : index < wordCount documents) :
    p.word key index = .ok (UInt64.ofNat (read key index)) := by
  rw [word, sound.stored key inside index within]
  rfl

theorem documentsOf_eq (sound : p.Sound documents read) (key : Nat) {filter : DocSet}
    (legible : filter.Legible) :
    p.documentsOf key filter = .ok ((bucket p.keys documents read key).filter filter.contains) := by
  by_cases inside : key < p.keys
  case neg =>
    simp only [documentsOf, if_neg inside, bucket]
    rfl
  have small := sound.small
  have room : documents ≤ wordCount documents * 64 := by
    unfold wordCount
    omega
  have each : ∀ index ∈ List.range p.wordsPerKey, (do
      let both := (← p.word key index) &&& (← filter.word index)
      (Word.positions both).mapM fun bit => do addSizes (← mulSizes index 64) bit :
        Except Fault (List Nat)) =
      .ok (((List.range 64).map (index * 64 + ·)).filter
        fun i => hasBit read key i && filter.contains i) := fun index listed => by
    have within : index < wordCount documents := sound.width ▸ List.mem_range.mp listed
    obtain ⟨theirs, known, bits⟩ :=
      DocSet.word_eq legible (show index + 1 < sizeLimit by unfold wordCount at within; omega)
    rw [word_eq sound inside within, ok_bind, known, ok_bind]
    dsimp only
    have sums : ∀ bit ∈ Word.positions (UInt64.ofNat (read key index) &&& theirs),
        (do addSizes (← mulSizes index 64) bit : Except Fault Nat) = .ok (index * 64 + bit) := by
      intro bit listed
      have low : bit < 64 := by
        rw [Word.positions_eq_filter] at listed
        exact List.mem_range.mp (List.mem_of_mem_filter listed)
      unfold wordCount at within
      rw [mulSizes_of_lt (by omega), ok_bind, addSizes_of_lt (by omega)]
    rw [mapM_eq_ok sums, Word.positions_eq_filter, List.filter_map]
    refine congrArg (Except.ok ∘ List.map _) (List.filter_congr fun bit low => ?_)
    have low := List.mem_range.mp low
    rw [Word.hasBit_and, bits bit low, Function.comp_apply, hasBit,
      show (index * 64 + bit) / 64 = index by omega, show (index * 64 + bit) % 64 = bit by omega]
  rw [documentsOf, if_pos inside, mapM_eq_ok each, ok_bind, sound.documentCount, sound.width,
    ← List.flatMap_def, bucket, if_pos inside, List.filter_filter]
  refine congrArg Except.ok ((filter_words room _).trans (List.filter_congr fun i _ => ?_))
  rw [Bool.and_comm]

theorem vector_eq (sound : p.Sound documents read) (inside : key < p.keys) :
    p.vector key = .ok ((List.range (wordCount documents)).map
      fun index => UInt64.ofNat (read key index)) := by
  rw [vector, sound.width]
  exact mapM_eq_ok fun index within => word_eq sound inside (List.mem_range.mp within)

theorem any_vector_iff : ((List.range (wordCount documents)).map
    fun index => UInt64.ofNat (read key index)).any (· != 0) = true ↔
      ∃ i, i / 64 < wordCount documents ∧ hasBit read key i = true := by
  simp only [List.any_map, List.any_eq_true, List.mem_range, Function.comp_apply, bne_iff_ne,
    Word.ne_zero_iff]
  constructor
  · rintro ⟨index, within, bit, low, set⟩
    refine ⟨index * 64 + bit, by omega, ?_⟩
    rwa [hasBit, show (index * 64 + bit) / 64 = index by omega,
      show (index * 64 + bit) % 64 = bit by omega]
  · rintro ⟨i, within, set⟩
    exact ⟨i / 64, within, i % 64, by omega, set⟩

/-- A vector may have bits that stand for no document, but then not within a set for just the
documents. -/
theorem stands {size : Nat} (exact : size = documents ∨ p.Clean documents read)
    (inside : key < p.keys) (below : i < size) (within : i / 64 < wordCount documents)
    (bit : hasBit read key i = true) : i < documents := by
  rcases exact with rfl | clean
  · exact below
  · exact clean key inside i within bit

theorem uniteKey_eq {state : Bool × ArraySet} (sound : p.Sound documents read)
    (clean : truthful → p.Clean documents read) (roomy : state.2.Roomy documents)
    (exact : state.2.size = documents ∨ p.Clean documents read) (inside : key < p.keys) :
    ∃ answer, p.uniteKey state key = .ok (state.1 || answer.1, answer.2) ∧
      Added truthful (· ∈ bucket p.keys documents read key) state.2 answer := by
  rw [uniteKey, vector_eq sound inside, ok_bind]
  by_cases filled : ((List.range (wordCount documents)).map
      fun index => UInt64.ofNat (read key index)).any (· != 0) = true
  · have reads : ∀ k < p.wordsPerKey,
        p.words.uint64At (key * p.wordsPerKey * 8 + k * 8) = .ok (read key k) := fun k within => by
      rw [← Nat.add_mul]
      exact sound.stored key inside k (sound.width ▸ within)
    obtain ⟨t, added, size, trimmed, members⟩ := ArraySet.uniteStored_eq (s := state.2)
      fun k within => reads k (Nat.lt_min.mp within).1
    refine ⟨(true, t), by simp only [if_pos filled, added, Bool.or_true]; rfl, size, trimmed,
      fun i => ?_, Bool.noConfusion, fun true => ⟨fun _ => ?_, fun _ => rfl⟩⟩
    · rw [members, mem_bucket, sound.width]
      refine or_congr_right ⟨?_, ?_⟩
      · rintro ⟨below, within, bit⟩
        exact ⟨inside, stands exact inside below within bit, bit⟩
      · rintro ⟨_, below, bit⟩
        exact ⟨Nat.lt_of_lt_of_le below roomy.room, div_lt_wordCount below, bit⟩
    · obtain ⟨i, within, bit⟩ := any_vector_iff.mp filled
      exact ⟨i, mem_bucket.mpr ⟨inside, clean true key inside i within bit, bit⟩⟩
  · rw [if_neg filled]
    refine ⟨(false, state.2), by rw [Bool.or_false]; rfl, Added.nothing roomy.trimmed fun i member => ?_⟩
    obtain ⟨_, below, bit⟩ := mem_bucket.mp member
    exact filled (any_vector_iff.mpr ⟨i, div_lt_wordCount below, bit⟩)

theorem foldlM_uniteKey {keys : List Nat} {state : Bool × ArraySet} (sound : p.Sound documents read)
    (clean : truthful → p.Clean documents read) (roomy : state.2.Roomy documents)
    (exact : state.2.size = documents ∨ p.Clean documents read)
    (inside : ∀ key ∈ keys, key < p.keys) :
    ∃ answer, keys.foldlM p.uniteKey state = .ok (state.1 || answer.1, answer.2) ∧
      Added truthful (fun i => ∃ key ∈ keys, i ∈ bucket p.keys documents read key) state.2 answer := by
  induction keys generalizing state with
  | nil =>
    exact ⟨(false, state.2), by rw [Bool.or_false]; rfl, Added.nothing roomy.trimmed (by simp)⟩
  | cons key rest ih =>
    obtain ⟨answer, united, added⟩ :=
      uniteKey_eq sound clean roomy exact (inside key List.mem_cons_self)
    obtain ⟨next, folded, more⟩ := @ih (state.1 || answer.1, answer.2) (added.roomy roomy)
      (added.size.symm ▸ exact) fun key later => inside key (List.mem_cons_of_mem _ later)
    refine ⟨(answer.1 || next.1, next.2), ?_, (added.andThen more).congr fun i => by simp⟩
    rw [List.foldlM_cons, united, ok_bind, folded, Bool.or_assoc]

theorem Sound.unites (sound : p.Sound documents read) (clean : truthful → p.Clean documents read)
    {dest : ArraySet} (roomy : dest.Roomy documents)
    (exact : dest.size = documents ∨ p.Clean documents read) (first last : Nat) :
    ∃ answer, (Postings.bits p).uniteBetween dest first last = .ok answer ∧
      Added truthful (fun i => ∃ key, first ≤ key ∧ key ≤ last ∧
        i ∈ bucket p.keys documents read key) dest answer := by
  refine Postings.unites_of_inside roomy.trimmed (fun _ => bucket_past)
    (fun last order inside => ?_) last
  simp only [Postings.keys] at inside
  rw [Postings.uniteBetween, if_neg (by simp only [Postings.keys]; omega)]
  simp only [Postings.keys, subSizes_of_le (Nat.one_le_of_lt inside), ok_bind,
    Nat.min_eq_left (show last ≤ p.keys - 1 by omega), uniteBetween]
  by_cases flat : p.wordsPerKey = 0
  · rw [if_pos flat]
    refine ⟨_, rfl, Added.nothing roomy.trimmed ?_⟩
    rintro i ⟨key, _, _, member⟩
    have := div_lt_wordCount (mem_bucket.mp member).2.1
    have := sound.width
    omega
  · rw [if_neg flat]
    have within : ∀ key, key ∈ List.range' first (last + 1 - first) ↔ first ≤ key ∧ key ≤ last :=
      fun key => by
        rw [List.mem_range'_1]
        omega
    obtain ⟨answer, folded, added⟩ := @foldlM_uniteKey p documents read truthful
      (List.range' first (last + 1 - first)) (false, dest) sound clean roomy exact
      fun key listed => Nat.lt_of_le_of_lt ((within key).mp listed).2 inside
    refine ⟨answer, by simpa only [Bool.false_or] using folded,
      added.congr fun i => exists_congr fun key => ?_⟩
    rw [within, and_assoc]

theorem Sound.occupied (sound : p.Sound documents read)
    (past : (Postings.bits p).occupiedKeys ≤ key) : bucket p.keys documents read key = [] := by
  simp only [Postings.occupiedKeys, occupiedKeys] at past
  refine List.eq_nil_iff_forall_not_mem.mpr fun i member => ?_
  obtain ⟨inside, below, _⟩ := mem_bucket.mp member
  have width := sound.width
  have := div_lt_wordCount below
  rw [if_neg (by omega)] at past
  omega

/-- Stored vectors list the documents of each key. -/
theorem Sound.lists (sound : p.Sound documents read)
    (clean : truthful → p.Clean documents read) :
    (Postings.bits p).Lists documents truthful (bucket p.keys documents read) where
  below _ _ member := (mem_bucket.mp member).2.1
  keys _ := bucket_past
  occupied _ := sound.occupied
  documentsOf key _ legible := documentsOf_eq sound key legible
  uniteBetween _ first last sized := sound.unites clean sized.roomy (Or.inl sized.size) first last

theorem word_within {keys width index : Nat} (inside : key < keys) (within : index < width) :
    (key * width + index) * 8 + 8 ≤ keys * width * 8 := by
  have next : (key + 1) * width ≤ keys * width := Nat.mul_le_mul_right width inside
  rw [Nat.succ_mul] at next
  omega

theorem decode_meets {v : View} {post : PostingBits → View → Prop}
    {refused : FormatError → View → Prop} (small : documents + 63 < sizeLimit)
    (read : ∀ p read w, Sound p documents read → post p w)
    (refusal : ∀ e w, refused e w) : Meets (decode documents) v post refused := by
  unfold decode
  rw [Meets.bind]
  refine Decoder.uint32_meets (fun v₁ _ _ => ?_) (fun _ e => refusal e _)
  rw [Meets.bind]
  refine Decoder.uint32_meets (fun v₂ _ _ => ?_) (fun _ e => refusal e _)
  rw [Meets.bind, Meets.lift (wordsFor_eq small)]
  dsimp only
  by_cases wrong : Bytes.value (v₁.rest.take 4) ≠ wordCount documents
  · rw [if_pos wrong]
    exact refusal _ _
  · rw [if_neg wrong, Meets.bind]
    refine Decoder.tableSize_meets (fun _ => ?_) (fun _ e => refusal e _)
    rw [Meets.bind]
    refine Decoder.tableSize_meets (fun _ => ?_) (fun _ e => refusal e _)
    rw [Meets.bind]
    refine Decoder.slice_meets (fun words w _ _ size _ _ => ?_) (fun _ e => refusal e _)
    refine read _ (fun key index => words.entry 8 (key * wordCount documents + index)) w
      ⟨rfl, small, Decidable.not_not.mp wrong, fun key inside index within => ?_⟩
    have width := Decidable.not_not.mp wrong
    have room := word_within inside within
    simp only [width] at room size ⊢
    exact View.uint64At_eq (by omega)

theorem hasBit_foldl {start : UInt64} {listed : List Nat} {bit : Nat} (inside : bit < 64) :
    Word.hasBit (listed.foldl (fun word document => word ||| Word.single document) start) bit =
      (Word.hasBit start bit || listed.any fun document => bit = document % 64) := by
  induction listed generalizing start with
  | nil => simp
  | cons first rest ih =>
    rw [List.foldl_cons, ih, Word.hasBit_or, Word.hasBit_single inside, List.any_cons, Bool.or_assoc]

theorem hasBit_vectorWord (listed : List Nat) (i : Nat) :
    Word.hasBit (PostingsBuilder.vectorWord listed (i / 64)) (i % 64) = decide (i ∈ listed) := by
  rw [PostingsBuilder.vectorWord, hasBit_foldl (Nat.mod_lt _ (by decide)), Word.hasBit_zero,
    Bool.false_or, Bool.eq_iff_iff, List.any_eq_true, decide_eq_true_eq]
  constructor
  · rintro ⟨document, member, bit⟩
    obtain ⟨member, word⟩ := List.mem_filter.mp member
    have same : document = i := by
      simp only [decide_eq_true_eq] at word bit
      omega
    exact same ▸ member
  · intro member
    exact ⟨i, List.mem_filter.mpr ⟨member, by simp⟩, by simp⟩

def writtenWord (buckets : List (List Nat)) (key index : Nat) : Nat :=
  (PostingsBuilder.vectorWord (buckets.getD key []) index).toNat

theorem hasBit_writtenWord (buckets : List (List Nat)) (key i : Nat) :
    hasBit (writtenWord buckets) key i = decide (i ∈ buckets.getD key []) := by
  rw [hasBit, writtenWord, UInt64.ofNat_toNat, hasBit_vectorWord]

theorem length_vector (listed : List Nat) (words : Nat) :
    ((List.range words).flatMap fun index =>
      Bytes.ofUInt64 (PostingsBuilder.vectorWord listed index).toNat).length = words * 8 := by
  rw [Bytes.length_flatMap_width fun _ _ => Bytes.length_ofUInt64 _, List.length_range]

theorem length_vectors (buckets : List (List Nat)) (words : Nat) :
    (buckets.flatMap fun listed => (List.range words).flatMap fun index =>
      Bytes.ofUInt64 (PostingsBuilder.vectorWord listed index).toNat).length =
        buckets.length * words * 8 := by
  rw [Bytes.length_flatMap_width fun listed _ => length_vector listed words, Nat.mul_assoc]

/-- Written vectors are read back, key by key. -/
theorem decode_reads {buckets : List (List Nat)} (small : documents + 63 < sizeLimit)
    (keys : buckets.length < 2 ^ 32) (width : wordCount documents < 2 ^ 32)
    (ascending : ∀ listed ∈ buckets, listed.Pairwise (· < ·))
    (below : ∀ listed ∈ buckets, ∀ i ∈ listed, i < documents)
    (fits : buckets.length * wordCount documents * 8 < sizeLimit) :
    Decoder.Reads (decode documents) (Bytes.ofUInt32 buckets.length ++
      Bytes.ofUInt32 (wordCount documents) ++ buckets.flatMap fun listed =>
        (List.range (wordCount documents)).flatMap fun index =>
          Bytes.ofUInt64 (PostingsBuilder.vectorWord listed index).toNat) fun p =>
      p.keys = buckets.length ∧ ∃ read, p.Sound documents read ∧ p.Clean documents read ∧
        bucket p.keys documents read = fun key => buckets.getD key [] := by
  unfold decode
  rw [List.append_assoc]
  refine (Decoder.Reads.uint32 keys).bind fun _ same => ?_
  subst same
  refine (Decoder.Reads.uint32 width).bind fun _ same => ?_
  subst same
  refine (Decoder.Reads.lift (wordsFor_eq small)).bind_nil fun _ same => ?_
  subst same
  dsimp only
  rw [if_neg (by simp), Decoder.tableSize, if_pos (by omega)]
  refine (Decoder.Reads.pure rfl).bind_nil fun _ same => ?_
  subst same
  rw [Decoder.tableSize, if_pos fits]
  refine (Decoder.Reads.pure rfl).bind_nil fun _ same => ?_
  subst same
  rw [← length_vectors]
  refine (Decoder.Reads.slice _).bind_last fun words stored => Decoder.Reads.pure ?_
  refine ⟨rfl, writtenWord buckets, ⟨rfl, small, rfl, fun key inside index within => ?_⟩,
    fun key inside i _ bit => ?_, funext fun key => ?_⟩
  · have outer := (stored.1 ▸ words.has_bytes).flatMap (fun listed _ => length_vector listed _) inside
    have has := outer.flatMap (fun _ _ => Bytes.length_ofUInt64 _)
      (show index < (List.range (wordCount documents)).length by simpa using within)
    rw [List.getElem_range, Nat.zero_add, ← Nat.mul_assoc, ← Nat.add_mul] at has
    rw [writtenWord, List.getD_eq_getElem _ _ inside]
    exact has.uint64At_eq (UInt64.toNat_lt _)
  · rw [hasBit_writtenWord, decide_eq_true_eq, List.getD_eq_getElem _ _ inside] at bit
    exact below _ (List.getElem_mem inside) i bit
  · have bits : hasBit (writtenWord buckets) key = fun i => decide (i ∈ buckets.getD key []) :=
      funext (hasBit_writtenWord buckets key)
    rw [bucket, bits]
    split
    · rename_i inside
      rw [List.getD_eq_getElem _ _ inside]
      exact filter_range_mem (ascending _ (List.getElem_mem inside))
        (below _ (List.getElem_mem inside))
    · rename_i past
      rw [List.getD_eq_default _ _ (Nat.le_of_not_lt past)]

end PostingBits

end DocStore
