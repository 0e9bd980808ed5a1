import DocStore.Proofs.Index.Sort
import DocStore.Proofs.Postings.Decoding

/-! The two stored forms of some pairs answer alike: every lookup that adds to a set with room,
every key through a filter, and the groups in both directions. The exception are full filters of
the largest sizes. Their words cannot be counted in 64 bits, which the bit form has to do and the
list form does not. -/
namespace DocStore

variable {keys documents : Nat} {pairs : List (Nat × Nat)}

/-- Every number that the forms of some pairs store fits its place. -/
structure Storable (keys documents : Nat) (pairs : List (Nat × Nat)) : Prop where
  entries : ∀ pair ∈ pairs, pair.2 < 2 ^ 32
  total : pairs.dedup.length < 2 ^ 32
  width : wordCount documents < 2 ^ 32
  vectors : keys * wordCount documents * 8 < sizeLimit
  keys : keys < 2 ^ 32

theorem filter_map_range {α : Type} {f : Nat → α} {passes : α → Bool} {low high : Nat}
    (order : low ≤ high) (none : ∀ i, low ≤ i → passes (f i) = false) :
    ((List.range low).map f).filter passes = ((List.range high).map f).filter passes := by
  induction order with
  | refl => rfl
  | @step high order ih =>
    rw [ih, List.range_succ, List.map_append, List.filter_append, List.map_singleton,
      List.filter_singleton, none high order]
    exact (List.append_nil _).symm

namespace Postings

inductive Lookup where
  | one (key : Nat)
  | onward (first : Nat)
  | upTo (last : Nat)
  | between (first last : Nat)

/-- A lookup covers a key. The key need not exist, and a range may be inverted. -/
def Lookup.Covers : Lookup → Nat → Prop
  | one wanted, key => key = wanted
  | onward first, key => first ≤ key
  | upTo last, key => key ≤ last
  | between first last, key => first ≤ key ∧ key ≤ last

def ask (p : Postings) (dest : ArraySet) : Lookup → Except Fault (Bool × ArraySet)
  | .one key => p.uniteKey dest key
  | .onward first => p.uniteFrom dest first
  | .upTo last => p.uniteUpTo dest last
  | .between first last => p.uniteBetween dest first last

/-- The documents that some pairs give a key, as far as a filter has them, ascending. -/
def named (pairs : List (Nat × Nat)) (documents : Nat) (filter : DocSet) (key : Nat) : List Nat :=
  ((List.range documents).filter fun i => (key, i) ∈ pairs).filter filter.contains

def gathered (pairs : List (Nat × Nat)) (keys documents : Nat) (filter : DocSet) :
    List (Nat × List Nat) :=
  ((List.range keys).map fun key => (key, named pairs documents filter key)).filter (!·.2.isEmpty)

/-- Postings answer every question as some pairs do. -/
structure Answers (p : Postings) (keys documents : Nat) (pairs : List (Nat × Nat)) : Prop where
  ask : ∀ (dest : ArraySet) (lookup : Lookup), dest.Roomy documents →
    ∃ answer, p.ask dest lookup = .ok answer ∧
      Added True (fun i => ∃ key, lookup.Covers key ∧ (key, i) ∈ pairs) dest answer
  documentsOf : ∀ (key : Nat) (filter : DocSet), filter.Legible →
    p.documentsOf key filter = .ok (named pairs documents filter key)
  groups : ∀ (direction : Direction) (filter : DocSet), filter.Legible →
    p.groups direction filter = .ok (direction.arrange (gathered pairs keys documents filter))
  keys : p.keys = keys

structure Alike (p q : Postings) (documents : Nat) : Prop where
  keys : p.keys = q.keys
  ask : ∀ (dest : ArraySet) (lookup : Lookup), dest.Roomy documents →
    p.ask dest lookup = q.ask dest lookup
  documentsOf : ∀ (key : Nat) (filter : DocSet), filter.Legible →
    p.documentsOf key filter = q.documentsOf key filter
  groups : ∀ (direction : Direction) (filter : DocSet), filter.Legible →
    p.groups direction filter = q.groups direction filter

/-- The list form and the bit form of some pairs answer alike, and as the pairs do. Only a full
filter with more words than can be counted tells them apart. -/
structure Interchange (p q : Postings) (keys documents : Nat) (pairs : List (Nat × Nat)) :
    Prop where
  lists : p.encoding = .list
  vectors : q.encoding = .bits
  answers : p.Answers keys documents pairs
  answers' : q.Answers keys documents pairs
  alike : p.Alike q documents
  uncountable : ∀ key size, key < keys → 0 < documents → sizeLimit ≤ size + 63 →
    p.documentsOf key (.all size) = .ok (named pairs documents (.all size) key) ∧
      q.documentsOf key (.all size) = .error .overflow

variable {p q : Postings}

theorem Answers.alike (here : p.Answers keys documents pairs)
    (there : q.Answers keys documents pairs) : p.Alike q documents where
  keys := here.keys.trans there.keys.symm
  ask dest lookup roomy := by
    obtain ⟨answer, asked, added⟩ := here.ask dest lookup roomy
    obtain ⟨answer', asked', added'⟩ := there.ask dest lookup roomy
    rw [asked, asked', added.unique added']
  documentsOf key filter legible := by
    rw [here.documentsOf key filter legible, there.documentsOf key filter legible]
  groups direction filter legible := by
    rw [here.groups direction filter legible, there.groups direction filter legible]

theorem occupiedKeys_le (p : Postings) : p.occupiedKeys ≤ p.keys := by
  cases p with
  | list postings => exact Nat.le_refl _
  | bits postings =>
    simp only [occupiedKeys, PostingBits.occupiedKeys, keys]
    split
    · exact Nat.zero_le _
    · exact Nat.le_refl _

/-- Every lookup is one of a range of keys. -/
theorem ask_between (p : Postings) (dest : ArraySet) (lookup : Lookup) :
    ∃ first last, p.ask dest lookup = p.uniteBetween dest first last ∧
      ∀ key < p.keys, lookup.Covers key ↔ first ≤ key ∧ key ≤ last := by
  cases lookup with
  | one wanted =>
    refine ⟨wanted, wanted, rfl, fun key _ => ?_⟩
    rw [Lookup.Covers]
    omega
  | onward first =>
    refine ⟨first, p.keys - 1, ?_, fun key known => ?_⟩
    · rw [ask, uniteFrom]
      split
      · rename_i none
        rw [uniteBetween, if_pos (Or.inl none)]
      · rename_i last counted
        rw [counted, Nat.succ_eq_add_one, Nat.add_sub_cancel]
    · rw [Lookup.Covers]
      omega
  | upTo last =>
    refine ⟨0, last, rfl, fun key _ => ?_⟩
    rw [Lookup.Covers]
    omega
  | between first last => exact ⟨first, last, rfl, fun _ _ => Iff.rfl⟩

/-- To answer as pairs do it is enough to answer for ranges of keys and for single keys. -/
theorem answers_of_bucket {bucket : Nat → List Nat} (size : p.keys = keys)
    (inside : ∀ pair ∈ pairs, pair.1 < keys ∧ pair.2 < documents)
    (same : bucket = fun key => (List.range documents).filter fun i => (key, i) ∈ pairs)
    (occupied : ∀ key, p.occupiedKeys ≤ key → bucket key = [])
    (documentsOf : ∀ (key : Nat) (filter : DocSet), filter.Legible →
      p.documentsOf key filter = .ok ((bucket key).filter filter.contains))
    (unites : ∀ (dest : ArraySet) (first last : Nat), dest.Roomy documents →
      ∃ answer, p.uniteBetween dest first last = .ok answer ∧
        Added True (fun i => ∃ key, first ≤ key ∧ key ≤ last ∧ i ∈ bucket key) dest answer) :
    p.Answers keys documents pairs := by
  subst same
  constructor
  · intro dest lookup roomy
    obtain ⟨first, last, asked, covers⟩ := p.ask_between dest lookup
    obtain ⟨answer, united, added⟩ := unites dest first last roomy
    refine ⟨answer, asked.trans united, added.congr fun i => exists_congr fun key => ?_⟩
    rw [List.mem_filter, List.mem_range, decide_eq_true_eq, ← and_assoc]
    constructor
    · rintro ⟨range, below, pair⟩
      exact ⟨(covers key (size ▸ (inside _ pair).1)).mpr range, pair⟩
    · rintro ⟨covered, pair⟩
      exact ⟨(covers key (size ▸ (inside _ pair).1)).mp covered, (inside _ pair).2, pair⟩
  · exact documentsOf
  · intro direction filter legible
    rw [groups_of_documents fun key => documentsOf key filter legible]
    refine congrArg (Except.ok ∘ direction.arrange) ?_
    -- The bit form passes over all keys when there are no documents.
    rw [gathered, ← size]
    refine filter_map_range p.occupiedKeys_le fun key past => ?_
    have none := occupied key past
    simp only at none
    simp only [none, List.filter_nil, List.isEmpty_nil, Bool.not_true]
  · exact size

end Postings

/-- The bit form cannot read the full set of a size that leaves no room to round up to words. -/
theorem PostingBits.documentsOf_uncountable {p : PostingBits} {read : Nat → Nat → Nat}
    {key size : Nat} (sound : p.Sound documents read) (inside : key < p.keys)
    (some : 0 < documents) (large : sizeLimit ≤ size + 63) :
    p.documentsOf key (.all size) = .error .overflow := by
  have first : (DocSet.all size).word 0 = .error .overflow := by
    rw [DocSet.word, wordsFor, addSizes, if_neg (Nat.not_lt_of_le large)]
    rfl
  obtain ⟨more, width⟩ := Nat.exists_eq_add_of_lt (div_lt_wordCount some)
  have word := word_eq sound inside (div_lt_wordCount some)
  rw [Nat.zero_div] at word width
  rw [documentsOf, if_pos inside, sound.width, width, Nat.zero_add, List.range_succ_eq_map,
    List.mapM_cons, word, ok_bind, first]
  rfl

namespace PostingsBuilder

variable {b : PostingsBuilder}

/-- A builder that has room for the keys takes all pairs. -/
theorem gathers_of_storable (storable : Storable keys documents pairs)
    (inside : ∀ pair ∈ pairs, pair.1 < keys ∧ pair.2 < documents) :
    ∃ start b, allocate keys documents = .ok start ∧ start.putAll pairs = (b, none) ∧
      b.Gathers keys documents pairs := by
  obtain ⟨b, put, gathers⟩ := (gathers_empty keys documents).putAll inside storable.entries
  refine ⟨empty keys documents, b, if_pos ?_, put, gathers⟩
  have few := storable.keys
  unfold bucketWidth sizeLimit
  omega

namespace Gathers

variable (gathers : b.Gathers keys documents pairs) (storable : Storable keys documents pairs)

include gathers storable

theorem form_list : b.form .list = .ok b.normalize.listForm ∧
    Decoder.Reads (Postings.decode documents) b.normalize.listForm fun q =>
      ∃ p offset document, q = .list p ∧ p.keys = keys ∧ p.Sound documents offset document ∧
        PostingList.bucket p.keys offset document =
          fun key => (List.range documents).filter fun i => (key, i) ∈ pairs := by
  have size := gathers.keys
  have limit := gathers.documents
  have short : ∀ listed ∈ b.buckets.toList, ∀ i ∈ listed, i < 2 ^ 32 := by
    intro listed within i member
    obtain ⟨key, pair⟩ := gathers.mem_of_listed within member
    exact storable.entries _ pair
  have fits : b.Fits .list := by
    constructor
    · exact size ▸ storable.keys
    · exact gathers.pairs_normalize ▸ storable.total
  have reads := listForm_decodes gathers.below short fits
  rw [limit, size, gathers.bucket_eq_filter] at reads
  exact ⟨rfl, reads⟩

theorem form_bits : b.form .bits = .ok (b.normalize.bitForm (wordCount documents)) ∧
    Decoder.Reads (Postings.decode documents) (b.normalize.bitForm (wordCount documents)) fun q =>
      ∃ p read, q = .bits p ∧ p.keys = keys ∧ p.Sound documents read ∧ p.Clean documents read ∧
        PostingBits.bucket p.keys documents read =
          fun key => (List.range documents).filter fun i => (key, i) ∈ pairs := by
  have size := gathers.keys
  have limit := gathers.documents
  have fits : b.keys < 2 ^ 32 := size ▸ storable.keys
  have reads := bitForm_decodes gathers.below (limit ▸ storable.width)
    (size ▸ limit ▸ storable.vectors) fits
  have room : documents + 63 < sizeLimit := by
    have width := storable.width
    unfold wordCount at width
    unfold sizeLimit
    omega
  rw [limit, size, gathers.bucket_eq_filter] at reads
  refine ⟨?_, reads⟩
  rw [form, limit, wordsFor_eq room]
  rfl

end Gathers

structure Writes (b : PostingsBuilder) (listed vectors : Bytes) : Prop where
  again : ∀ encoding, b.normalize.form encoding = b.form encoding
  list : b.form .list = .ok listed
  bits : b.form .bits = .ok vectors

/-- Pairs in range are put without a fault, and each form is read back from just its bytes,
whatever follows. Both then answer every lookup, every key and all groups as the pairs do, into
any set with room for the documents and through any filter whose words can be counted. -/
theorem forms_interchangeable (storable : Storable keys documents pairs)
    (inside : ∀ pair ∈ pairs, pair.1 < keys ∧ pair.2 < documents) :
    ∃ start b listed vectors, allocate keys documents = .ok start ∧
      start.putAll pairs = (b, none) ∧ b.Writes listed vectors ∧
      Decoder.Reads (Postings.decode documents) listed fun p =>
        Decoder.Reads (Postings.decode documents) vectors fun q =>
          p.Interchange q keys documents pairs := by
  obtain ⟨start, b, allocated, put, gathers⟩ := gathers_of_storable storable inside
  obtain ⟨list, lists⟩ := gathers.form_list storable
  obtain ⟨bits, vectors⟩ := gathers.form_bits storable
  refine ⟨start, b, _, _, allocated, put, ⟨fun encoding => ?_, list, bits⟩, ?_⟩
  · cases encoding with
    | list => rw [form, form, normalize_normalize]
    | bits => rw [form, form, normalize_normalize]; rfl
  · refine lists.mono ?_
    rintro _ ⟨p, offset, document, rfl, size, sound, same⟩
    have answers : (Postings.list p).Answers keys documents pairs := by
      apply Postings.answers_of_bucket (p := .list p) size inside same
      · exact fun _ => PostingList.bucket_past
      · exact fun key filter _ => PostingList.documentsOf_eq sound key filter
      · exact fun dest first last roomy => sound.unites True roomy first last
    refine vectors.mono ?_
    rintro _ ⟨q, words, rfl, size', sound', clean, same'⟩
    have answers' : (Postings.bits q).Answers keys documents pairs := by
      apply Postings.answers_of_bucket (p := .bits q) size' inside same'
      · exact fun _ => sound'.occupied
      · exact fun key filter => PostingBits.documentsOf_eq sound' key
      · exact fun dest first last roomy =>
          sound'.unites (fun _ => clean) roomy (Or.inr clean) first last
    refine ⟨rfl, rfl, answers, answers', answers.alike answers', ?_⟩
    intro key filter known some large
    constructor
    · have answer := PostingList.documentsOf_eq sound key (.all filter)
      rwa [same] at answer
    · exact PostingBits.documentsOf_uncountable sound' (size'.symm ▸ known) some large

theorem forms_interchangeable_pastWord : ∃ start b listed vectors p q,
    allocate 3 70 = .ok start ∧ start.putAll [(2, 64), (0, 3), (2, 1), (2, 64)] = (b, none) ∧
      b.form .list = .ok listed ∧ b.form .bits = .ok vectors ∧
      ((Postings.decode 70).runOn (View.ofBytes listed)).1 = .ok p ∧
      ((Postings.decode 70).runOn (View.ofBytes vectors)).1 = .ok q ∧
      p.documentsOf 2 (.all 200) = .ok [1, 64] ∧ q.documentsOf 2 (.all 200) = .ok [1, 64] := by
  have storable : Storable 3 70 [(2, 64), (0, 3), (2, 1), (2, 64)] := by
    constructor <;> decide
  obtain ⟨start, b, listed, vectors, allocated, put, writes, reads⟩ :=
    forms_interchangeable storable (by decide)
  obtain ⟨p, _, read, _, reads⟩ := reads.run_eq (View.rest_ofBytes listed)
  obtain ⟨q, _, read', _, interchange⟩ := reads.run_eq (View.rest_ofBytes vectors)
  have legible : (DocSet.all 200).Legible := DocSet.legible_all (by decide)
  refine ⟨start, b, listed, vectors, p, q, allocated, put, writes.list, writes.bits, by rw [read],
    by rw [read'], (interchange.answers.documentsOf 2 _ legible).trans ?_,
    (interchange.answers'.documentsOf 2 _ legible).trans ?_⟩
  · exact congrArg Except.ok (by decide)
  · exact congrArg Except.ok (by decide)

/-- Through the full set of the greatest size a key has its document in one form, and the other
meets a fault. -/
theorem forms_differ_lastSize : ∃ start b listed vectors p q,
    allocate 1 1 = .ok start ∧ start.putAll [(0, 0)] = (b, none) ∧
      b.form .list = .ok listed ∧ b.form .bits = .ok vectors ∧
      ((Postings.decode 1).runOn (View.ofBytes listed)).1 = .ok p ∧
      ((Postings.decode 1).runOn (View.ofBytes vectors)).1 = .ok q ∧
      p.documentsOf 0 (.all 18446744073709551615) = .ok [0] ∧
      q.documentsOf 0 (.all 18446744073709551615) = .error .overflow := by
  have storable : Storable 1 1 [(0, 0)] := by
    constructor <;> decide
  obtain ⟨start, b, allocated, put, gathers⟩ := gathers_of_storable storable (by decide)
  obtain ⟨listed, lists⟩ := gathers.form_list storable
  obtain ⟨written, vectors⟩ := gathers.form_bits storable
  obtain ⟨_, _, read, _, p, offset, document, rfl, _, sound, same⟩ :=
    lists.run_eq (View.rest_ofBytes _)
  obtain ⟨_, _, read', _, q, words, rfl, size, sound', _⟩ :=
    vectors.run_eq (View.rest_ofBytes _)
  refine ⟨start, b, _, _, .list p, .bits q, allocated, put, listed, written, by rw [read],
    by rw [read'], ?_, ?_⟩
  · rw [Postings.documentsOf, PostingList.documentsOf_eq sound, same]
    exact congrArg Except.ok (by decide)
  · apply PostingBits.documentsOf_uncountable sound'
    · exact size.symm ▸ Nat.one_pos
    · exact Nat.one_pos
    · decide

end PostingsBuilder

end DocStore
