import Mathlib.Data.List.Induction
import DocStore.Proofs.Build.Admission
import DocStore.Proofs.Build.Freezing

/-! Sealing is total. What the checks of documents establish one by one is all that sealing takes
for granted, so that no value is without a rank, no document out of range and no length in doubt;
what is left to go wrong is a size that 64 bits cannot hold. -/
namespace DocStore

namespace Column

variable {c : Column} {entries : List (Nat × FieldEntry)} {documents : Nat}

def listing (name : String) (entries : List (Nat × FieldEntry)) : List (Nat × Bytes) :=
  (entries.filter fun item => item.2.name = name).map fun item => (item.1, item.2.value)

theorem listing_same {document : Nat} {entry : FieldEntry} :
    listing entry.name (entries ++ [(document, entry)]) =
      listing entry.name entries ++ [(document, entry.value)] := by
  simp [listing, List.filter_append]

theorem listing_other {name : String} {document : Nat} {entry : FieldEntry}
    (apart : entry.name ≠ name) :
    listing name (entries ++ [(document, entry)]) = listing name entries := by
  simp [listing, List.filter_append, apart]

end Column

namespace Builder

variable {columns : List Column} {entries : List (Nat × FieldEntry)} {b : Builder}
  {accepted : List Document}

/-- Every column has the values of its field in the order in which they came, none of them twice
and none left out. -/
def Listed (columns : List Column) (entries : List (Nat × FieldEntry)) : Prop :=
  ∀ c ∈ columns, c.postings = Column.listing c.name entries

theorem Listed.record (listed : Listed columns entries) (collect : Collect columns entries)
    (document : Nat) (entry : FieldEntry) :
    Listed (record document entry columns) (entries ++ [(document, entry)]) := by
  intro c inside
  rcases (mem_record collect.named).mp inside with
    ⟨inside, apart⟩ | ⟨old, stored, same, rfl⟩ | ⟨none, rfl⟩
  · rw [Column.listing_other (Ne.symm apart)]
    exact listed c inside
  · change old.postings ++ [(document, entry.value)] = Column.listing old.name _
    rw [listed old stored, same, Column.listing_same]
  · change [] ++ [(document, entry.value)] = Column.listing entry.name _
    have fresh : entries.filter (fun item => item.2.name = entry.name) = [] := by
      apply List.filter_eq_nil_iff.mpr
      intro item before
      obtain ⟨old, inside, same⟩ := collect.all item before
      have apart := none old inside
      simpa [← same] using apart
    rw [Column.listing_same, Column.listing, fresh]
    rfl

theorem Listed.recordAll (listed : Listed columns entries) (collect : Collect columns entries)
    (document : Nat) (fields : List FieldEntry) :
    Listed (recordAll document fields columns) (entries ++ fields.map (document, ·)) := by
  induction fields generalizing columns entries with
  | nil => simpa [Builder.recordAll] using listed
  | cons entry rest ih =>
    have more := ih (listed.record collect document entry) (collect.record document entry)
    simpa [Builder.recordAll] using more

/-- One offer keeps the values in order, whether it is accepted or refused. -/
theorem Listed.offer (listed : Listed b.columns (entriesOf accepted)) (stores : b.Stores accepted)
    {d : Document} {number : Nat} {after : Builder} (added : b.add d = .ok (number, after)) :
    Listed after.columns (entriesOf (accepted ++ [d])) := by
  rw [add_eq] at added
  cases asked : b.vet d with
  | error e =>
    rw [asked] at added
    cases added
  | ok payload =>
    rw [asked] at added
    cases added
    rw [entriesOf_concat, ← stores.size]
    exact listed.recordAll stores.collect b.size d.fields

/-- Whatever a builder was offered, it stores what it has accepted, every value once. -/
theorem exists_stores {attempts : List Document} (coherent : ∀ d ∈ attempts, d.Coherent)
    (stores : b.Stores accepted) (listed : Listed b.columns (entriesOf accepted)) :
    ∃ documents, (b.offerAll attempts).Stores documents ∧
      Listed (b.offerAll attempts).columns (entriesOf documents) := by
  induction attempts generalizing b accepted with
  | nil => exact ⟨accepted, stores, listed⟩
  | cons d rest ih =>
    obtain ⟨now, later⟩ := List.forall_mem_cons.mp coherent
    rw [offerAll_cons]
    rcases stores.offer now with ⟨_, after, offered, added, stored⟩ | ⟨_, e, offered⟩
    · rw [offered]
      exact ih later stored (listed.offer stores added)
    · rw [offered]
      exact ih later stores listed

/-- A document has one value of a sortable field. -/
theorem pairwise_entriesOf (coherent : ∀ d ∈ accepted, d.Coherent) :
    (entriesOf accepted).Pairwise fun x y =>
      x.2.name = y.2.name → x.2.indexing.isSortable = true → x.1 ≠ y.1 := by
  induction accepted using List.reverseRecOn with
  | nil => exact List.Pairwise.nil
  | append_singleton before d ih =>
    have earlier := ih fun d inside => coherent d (List.mem_append_left _ inside)
    rw [entriesOf_concat]
    refine List.pairwise_append.mpr ⟨earlier, ?_, ?_⟩
    · apply List.Pairwise.map _ _ (coherent d (List.mem_append_right _ (List.mem_singleton_self d)))
      intro x y alike same sortable
      rw [(alike same).2] at sortable
      contradiction
    · intro x first y second _ _
      obtain ⟨entry, _, rfl⟩ := List.mem_map.mp second
      obtain ⟨holder, known, _⟩ := mem_entriesOf.mp (show (x.1, x.2) ∈ _ from first)
      exact Nat.ne_of_lt (List.getElem?_eq_some_iff.mp known).1

end Builder

namespace Column

variable {c : Column} {documents : Nat} {done rest : List (Nat × Bytes)} {b : PostingsBuilder}
  {ranks : Array Nat}

/-- One posting on the way of sealing: it is put under the rank of its value, and the rank is
written to the place of its document. -/
def sealStep (c : Column) : PostingsBuilder × Array Nat → Nat × Bytes →
    Except (Failure BuildError) (PostingsBuilder × Array Nat)
  | (collected, ranks), (document, value) =>
    match c.values.rank? value with
    | none => refuse (BuildError.field c.name .unknownValue)
    | some rank => do
      let collected ← collected.put rank document
      if inside : document < ranks.size then
        return (collected, ranks.set document rank)
      else
        throw (.fault .outOfRange)

def sealPass (c : Column) (documents : Nat) :
    Except (Failure BuildError) (PostingsBuilder × Array Nat) :=
  c.postings.foldlM c.sealStep
    (PostingsBuilder.empty c.values.size documents, Array.replicate documents SortIndex.noRank)

def rankAfter (c : Column) (done : List (Nat × Bytes)) (document : Nat) : Nat :=
  ((done.reverse.lookup document).bind c.values.rank?).getD SortIndex.noRank

structure Tabled (c : Column) (documents : Nat) (done : List (Nat × Bytes)) (ranks : Array Nat) :
    Prop where
  size : ranks.size = documents
  ranks : ∀ document < documents, ranks[document]? = some (c.rankAfter done document)

theorem Tabled.set {document key : Nat} {value : Bytes} (tabled : c.Tabled documents done ranks)
    (known : c.values.rank? value = some key) (inside : document < ranks.size) :
    c.Tabled documents (done ++ [(document, value)]) (ranks.set document key) where
  size := by rw [Array.size_set, tabled.size]
  ranks other below := by
    rw [rankAfter, List.reverse_append, List.reverse_singleton, List.singleton_append,
      List.lookup_cons, Array.getElem?_set]
    by_cases same : other = document
    · subst same
      simp [known]
    · have apart : (other == document) = false := by simpa using same
      rw [apart, if_neg (Ne.symm same)]
      exact tabled.ranks other below

/-- The pass meets nothing that it was not made for, as long as every value has a rank and every
document a place. -/
theorem sealPass_steps (known : ∀ posting ∈ rest, ∃ rank, c.values.rank? posting.2 = some rank)
    (below : ∀ posting ∈ rest, posting.1 < documents) (small : documents ≤ 2 ^ 32)
    (collected : c.Collected documents done b) (tabled : c.Tabled documents done ranks) :
    ∃ b' ranks', rest.foldlM c.sealStep (b, ranks) = .ok (b', ranks') ∧
      c.Collected documents (done ++ rest) b' ∧ c.Tabled documents (done ++ rest) ranks' := by
  induction rest generalizing done b ranks with
  | nil => exact ⟨b, ranks, rfl, by simpa using collected, by simpa using tabled⟩
  | cons posting rest ih =>
    obtain ⟨document, value⟩ := posting
    obtain ⟨rank, here⟩ := known _ List.mem_cons_self
    obtain ⟨next, put, step⟩ := collected.put here (below _ List.mem_cons_self) small
    have inside : document < ranks.size := tabled.size ▸ below _ List.mem_cons_self
    obtain ⟨last, table, steps, all, ranked⟩ := ih
      (fun other later => known other (List.mem_cons_of_mem _ later))
      (fun other later => below other (List.mem_cons_of_mem _ later)) step (tabled.set here inside)
    refine ⟨last, table, ?_, by simpa using all, by simpa using ranked⟩
    have stepped : c.sealStep (b, ranks) (document, value) = .ok (next, ranks.set document rank) := by
      simp only [sealStep, here, put, lift_ok, ok_bind, dif_pos inside, pure_eq_ok]
    rw [List.foldlM_cons, stepped]
    exact steps

/-- The postings of the pass are those that are stored. -/
theorem collect_of_sealPass (ran : c.sealPass documents = .ok (b, ranks)) :
    c.collect documents = .ok b := by
  rw [collect]
  refine foldlM_fst ?_ ran
  rintro start table ⟨document, value⟩ next after stepped
  simp only [sealStep] at stepped
  cases known : c.values.rank? value with
  | none =>
    rw [known] at stepped
    cases stepped
  | some rank =>
    rw [known] at stepped
    obtain ⟨more, put, placed⟩ := bind_eq_ok.mp stepped
    simp only [known, put]
    split at placed
    · cases placed
      rfl
    · cases placed

/-- The length of the bit form of a column, which is asked for before a form is chosen. -/
def bitFormSize (c : Column) (documents : Nat) : Nat :=
  12 + c.values.size * wordCount documents * 8

theorem bitFormSize_lt (limit : documents ≤ Builder.documentLimit)
    (few : c.values.size < 2 ^ 35) : c.bitFormSize documents < sizeLimit := by
  have words : wordCount documents ≤ 2 ^ 26 := by
    unfold wordCount
    change documents ≤ 0xFFFFFFFF at limit
    omega
  have cells : c.values.size * wordCount documents ≤ (2 ^ 35 - 1) * 2 ^ 26 :=
    Nat.mul_le_mul (Nat.le_pred_of_lt few) words
  unfold bitFormSize sizeLimit
  omega

section Sealable

variable (sealable : c.Sealable documents)

include sealable

/-- One pass gives the postings and the ranks that are stored. -/
theorem sealPass_eq_ok : ∃ b ranks, c.sealPass documents = .ok (b, ranks) ∧
    c.collect documents = .ok b ∧ ranks.toList = (List.range documents).map c.rankOf := by
  have content := sealable.content
  have start : c.Tabled documents [] (Array.replicate documents SortIndex.noRank) := by
    constructor
    · exact Array.size_replicate
    · intro document below
      rw [Array.getElem?_replicate, if_pos below]
      rfl
  obtain ⟨b, ranks, ran, _, tabled⟩ := sealPass_steps (fun _ posted => rank?_exists content posted)
    content.below content.small (collected_empty c documents) start
  refine ⟨b, ranks, ran, collect_of_sealPass ran, ?_⟩
  apply List.ext_getElem (by simp [tabled.size])
  intro document inside inside'
  have below : document < documents := by simpa using inside'
  have known := tabled.ranks document below
  rw [Array.getElem?_eq_getElem (tabled.size.symm ▸ below)] at known
  rw [Array.getElem_toList, List.getElem_map, List.getElem_range]
  exact Option.some.inj known

/-- A dictionary with values of one width is written for just such values. -/
theorem uniformLength?_exists (kind : c.indexing.dictionaryKind = .fixed)
    (some : c.values.values ≠ []) : c.values.uniformLength?.isSome = true := by
  have wide : c.indexing.hasWidth = true := by
    revert kind
    rcases c.indexing with ⟨_ | _ | _ | _, _ | _⟩ <;> decide
  obtain ⟨first, rest, known⟩ := List.exists_cons_of_ne_nil some
  rw [ValueSet.uniformLength?_of_alike known (sealable.uniform wide)]
  rfl

theorem form_cases : (c.bitFormSize documents < sizeLimit → ∃ body, c.form documents = .ok body) ∧
    (sizeLimit ≤ c.bitFormSize documents → c.form documents = .error (.fault .overflow)) := by
  obtain ⟨b, collect, collected⟩ := collect_eq_ok sealable.content
  have below : b.documents ≤ 2 ^ 32 := collected.documents ▸ sealable.content.small
  have length := @PostingsBuilder.bitFormLength_eq b (by unfold sizeLimit; omega)
  rw [collected.keys, collected.documents] at length
  change b.bitFormLength = if c.bitFormSize documents < sizeLimit then _ else _ at length
  constructor
  · intro fits
    have chosen : ∃ encoding, b.choice = .ok encoding := by
      rw [PostingsBuilder.choice, length, if_pos fits]
      exact ⟨_, rfl⟩
    obtain ⟨encoding, chosen⟩ := chosen
    obtain ⟨stored, formed⟩ := PostingsBuilder.form_exists below encoding
    simp only [form_of_collect collect, chosen, formed, lift_ok, ok_bind, pure_eq_ok]
    exact ⟨_, rfl⟩
  · intro large
    have stuck : b.choice = .error .overflow := by
      rw [PostingsBuilder.choice, length, if_neg (Nat.not_lt.mpr large)]
      rfl
    simp only [form_of_collect collect, stuck]
    rfl

end Sealable

end Column

namespace Builder

variable {b : Builder} {documents : List Document}

/-- Sealing gives a database, unless a length is more than 64 bits can hold. -/
theorem Stores.freeze_cases (stores : b.Stores documents) :
    ((∀ c ∈ b.columns, c.bitFormSize b.size < sizeLimit) → ∃ s, b.freeze = .ok s) ∧
    ((∃ c ∈ b.columns, sizeLimit ≤ c.bitFormSize b.size) →
      b.freeze = .error (.fault .overflow)) := by
  have forms : ∀ c ∈ b.columns,
      (c.bitFormSize b.size < sizeLimit → ∃ body, c.form b.size = .ok body) ∧
      (sizeLimit ≤ c.bitFormSize b.size → c.form b.size = .error (.fault .overflow)) := by
    intro c inside
    rw [stores.size]
    exact Column.form_cases (stores.sealable inside)
  constructor
  · intro fits
    refine ⟨_, freeze_of_formed fun c inside => ?_⟩
    obtain ⟨body, formed⟩ := (forms c inside).1 (fits c inside)
    rw [bodyOf, formed]
    rfl
  · rintro ⟨c, inside, large⟩
    unfold freeze
    rw [mapM_eq_error (e := .fault .overflow)]
    · rfl
    · intro other listed
      rcases Nat.lt_or_ge (other.bitFormSize b.size) sizeLimit with fits | large
      · obtain ⟨body, formed⟩ := (forms other listed).1 fits
        rw [formed]
        exact Or.inl ⟨_, rfl⟩
      · rw [(forms other listed).2 large]
        exact Or.inr rfl
    · refine ⟨c, inside, ?_⟩
      rw [(forms c inside).2 large]
      rfl

/-- The builder after documents were set up and added one after the other. What cannot be set up
is not added, and what is refused changes nothing. -/
def ofCalls (calls : List (List Document.Part)) : Builder :=
  empty.offerAll (calls.filterMap fun parts => (Document.ofParts parts).toOption)

end Builder

structure Column.Sound (c : Column) (documents : Nat) : Prop where
  below : ∀ posting ∈ c.postings, posting.1 < documents
  known : ∀ posting ∈ c.postings, posting.2 ∈ c.values.values
  once : c.indexing.isSortable = true → (c.postings.map Prod.fst).Nodup
  uniform : c.indexing.hasWidth = true →
    ∀ v ∈ c.values.values, ∀ w ∈ c.values.values, v.length = w.length

namespace Builder

variable {b : Builder} {documents : List Document} {c : Column}

section Stores

variable (stores : b.Stores documents) (inside : c ∈ b.columns)

include stores inside

theorem Stores.values_ne_nil : c.values.values ≠ [] := by
  have collects := stores.collect.each c inside
  obtain ⟨item, listed, named, _⟩ := collects.declared
  have posted := (collects.postings item.1 item.2.value).mpr ⟨item.2, listed, named, rfl⟩
  exact List.ne_nil_of_mem ((collects.values _).mpr ⟨_, posted⟩)

theorem Stores.sound (listed : Listed b.columns (entriesOf documents)) : c.Sound b.size where
  below := stores.size ▸ (stores.sealable inside).below
  known posting posted := ((stores.sealable inside).values _).mpr ⟨posting.1, posted⟩
  once sortable := by
    rw [listed c inside, Column.listing, List.map_map, List.Nodup, List.pairwise_map,
      List.pairwise_filter]
    apply List.Pairwise.imp_of_mem _ (pairwise_entriesOf stores.coherent)
    intro x y first _ apart named named'
    have named : x.2.name = c.name := of_decide_eq_true named
    obtain ⟨d, known, member⟩ := mem_entriesOf.mp (show (x.1, x.2) ∈ _ from first)
    have indexed := stores.indexing_eq inside known member named
    exact apart (named.trans (of_decide_eq_true named').symm) (indexed ▸ sortable)
  uniform := (stores.sealable inside).uniform

end Stores

/-- Sealing is total, whatever calls went before. The columns are what sealing takes for granted,
so that the pass over the postings of each meets no value without a rank and no document out of
range, and values of one width are written as such. Nothing is refused, and nothing fails but the
length of a bit form that 64 bits cannot hold, which takes 2^35 values of one field. -/
theorem sealing_total (calls : List (List Document.Part)) :
    (∀ c ∈ (ofCalls calls).columns, c.Sound (ofCalls calls).size ∧
      (∃ collected ranks, c.sealPass (ofCalls calls).size = .ok (collected, ranks) ∧
        c.collect (ofCalls calls).size = .ok collected ∧
        ranks.toList = (List.range (ofCalls calls).size).map c.rankOf) ∧
      (c.indexing.dictionaryKind = .fixed → c.values.uniformLength?.isSome = true)) ∧
    ((∀ c ∈ (ofCalls calls).columns, c.values.size < 2 ^ 35) →
      ∃ s, (ofCalls calls).freeze = .ok s) ∧
    ∀ failure, (ofCalls calls).freeze = .error failure → failure = .fault .overflow ∧
      ∃ c ∈ (ofCalls calls).columns, sizeLimit ≤ c.bitFormSize (ofCalls calls).size := by
  have coherent : ∀ d ∈ calls.filterMap fun parts => (Document.ofParts parts).toOption,
      d.Coherent := by
    intro d offered
    obtain ⟨parts, _, set⟩ := List.mem_filterMap.mp offered
    apply Document.coherent_of_built
    refine ⟨parts, ?_⟩
    cases known : Document.ofParts parts with
    | error problem =>
      rw [known] at set
      cases set
    | ok built =>
      rw [known] at set
      cases set
      rfl
  obtain ⟨documents, stores, listed⟩ := exists_stores coherent stores_empty fun c none =>
    absurd none List.not_mem_nil
  refine ⟨?_, ?_, ?_⟩
  · intro c inside
    have sealable := stores.sealable inside
    refine ⟨stores.sound inside listed, ?_, fun kind =>
      Column.uniformLength?_exists sealable kind (stores.values_ne_nil inside)⟩
    rw [← stores.size] at sealable
    exact Column.sealPass_eq_ok sealable
  · intro few
    apply stores.freeze_cases.1
    intro c inside
    exact Column.bitFormSize_lt (stores.size ▸ stores.limit) (few c inside)
  · intro failure failed
    by_cases fits : ∀ c ∈ (ofCalls calls).columns, c.bitFormSize (ofCalls calls).size < sizeLimit
    · obtain ⟨s, sealed⟩ := stores.freeze_cases.1 fits
      cases sealed.symm.trans failed
    · have large : ∃ c ∈ (ofCalls calls).columns,
          sizeLimit ≤ c.bitFormSize (ofCalls calls).size := by
        simpa only [not_forall, Nat.not_lt, exists_prop] using fits
      cases (stores.freeze_cases.2 large).symm.trans failed
      exact ⟨rfl, large⟩

end Builder

end DocStore
