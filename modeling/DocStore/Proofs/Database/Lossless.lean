import DocStore.Proofs.Database.Queries

/-! Sealing and reopening lose nothing: what was added can be read off the open database, down to
the values of each field, the documents under each of them and the rank of each document. -/
namespace DocStore

def Document.carries (d : Document) (field : String) (value : Bytes) : Bool :=
  d.fields.any fun entry => entry.name = field && entry.value = value

def Document.declares (d : Document) (use : Indexing → Bool) (field : String) : Bool :=
  d.fields.any fun entry => entry.name = field && use entry.indexing

def carriersOf (added : List Document) (field : String) (values : List Bytes) (key : Nat) : List Nat :=
  (List.range added.length).filter fun i =>
    values[key]?.any fun value => added[i]?.any (·.carries field value)

/-- A list has just the items of a kind, each once and in ascending order. -/
structure Enumerates {α : Type} [LT α] (items : List α) (wanted : α → Prop) : Prop where
  ascending : items.Pairwise (· < ·)
  members : ∀ a, a ∈ items ↔ wanted a

/-- A dictionary and its postings have the values of a field and the documents of each of them. -/
structure Catalogs (dictionary : Dictionary) (postings : Postings) (added : List Document)
    (field : String) (values : List Bytes) : Prop where
  enumerates : Enumerates values fun value => ∃ d ∈ added, d.carries field value = true
  holds : dictionary.Holds values
  keys : postings.keys = values.length
  lists : postings.Lists added.length True (carriersOf added field values)

/-- What an open database has of some documents. -/
structure Database.Preserves (db : Database) (added : List Document) : Prop where
  documents : db.documents = added.length
  payloads : ∀ (i : Nat) (d : Document), added[i]? = some d → ∃ view : View,
    db.payload? i = .ok (some view) ∧ d.payload = some view.bytes
  past : ∀ i, added.length ≤ i → db.payload? i = .ok none
  filterable : Enumerates db.snapshot.filterableFields fun field =>
    ∃ d ∈ added, d.declares Indexing.isFilterable field = true
  sortable : Enumerates db.snapshot.sortableFields fun field =>
    ∃ d ∈ added, d.declares Indexing.isSortable field = true
  filters : ∀ field ∈ db.snapshot.filterableFields, ∃ index values,
    db.snapshot.filter? field = some index ∧
      Catalogs index.dictionary index.postings added field values
  sorts : ∀ field ∈ db.snapshot.sortableFields, ∃ index values,
    db.snapshot.sort? field = some index ∧
      Catalogs index.dictionary index.postings added field values ∧
      ∀ i, index.rank? i = .ok ((added[i]?.bind (·.sortValue field)).bind values.idxOf?)

section Columns

variable {b : Builder} {added : List Document} {c : Column}

section Stores

variable (stores : b.Stores added) (inside : c ∈ b.columns)

include stores inside

theorem Builder.Stores.mem_postings_iff {i : Nat} {value : Bytes} : (i, value) ∈ c.postings ↔
    added[i]?.any (·.carries c.name value) = true := by
  rw [stores.mem_postings inside, Option.any_eq_true]
  simp only [Document.carries, List.any_eq_true, Bool.and_eq_true, decide_eq_true_eq]

theorem Builder.Stores.enumerates_values : Enumerates c.values.values fun value =>
    ∃ d ∈ added, d.carries c.name value = true := by
  constructor
  · exact (stores.sealable inside).ascending
  · intro value
    rw [(stores.sealable inside).values]
    simp only [stores.mem_postings_iff inside, Option.any_eq_true]
    constructor
    · rintro ⟨i, d, known, carried⟩
      exact ⟨d, List.mem_of_getElem? known, carried⟩
    · rintro ⟨d, member, carried⟩
      obtain ⟨i, known⟩ := List.getElem?_of_mem member
      exact ⟨i, d, known, carried⟩

theorem Builder.Stores.carriers_eq :
    c.carriers added.length = carriersOf added c.name c.values.values := by
  have sealable := stores.sealable inside
  funext key
  apply eq_of_ascending (List.pairwise_lt_range.filter _) (List.pairwise_lt_range.filter _)
  intro i
  change i ∈ c.carriers added.length key ↔ _
  rw [Column.mem_carriers sealable.content, List.mem_filter, List.mem_range, Option.any_eq_true]
  constructor
  · rintro ⟨value, posted, known⟩
    refine ⟨sealable.below _ posted, value, ?_, (stores.mem_postings_iff inside).mp posted⟩
    exact (idxOf?_eq_some_iff sealable.ascending).mp known
  · rintro ⟨_, value, known, carried⟩
    refine ⟨value, (stores.mem_postings_iff inside).mpr carried, ?_⟩
    exact (idxOf?_eq_some_iff sealable.ascending).mpr known

end Stores

variable {ι : Type} {indexes : List ι} {nameOf : ι → String} {use : Indexing → Bool}
  {right : Column → ι → Prop}

/-- The names of the indexes of one use, sorted, are the fields that were declared for it. -/
theorem Declared.enumerates_names (stores : b.Stores added)
    (listed : Declared indexes nameOf b.columns (fun c => use c.indexing) right) :
    Enumerates ((indexes.map nameOf).mergeSort fun a b => a ≤ b) fun field =>
      ∃ d ∈ added, d.declares use field = true := by
  have ordered : (indexes.map nameOf).Pairwise (· < ·) := by
    rw [listed.names, List.pairwise_map]
    exact stores.collect.named.filter _
  have sorted : (indexes.map nameOf).mergeSort (fun a b => a ≤ b) = indexes.map nameOf := by
    apply List.mergeSort_of_pairwise
    apply ordered.imp
    intro a b lower
    exact decide_eq_true (Std.le_of_lt lower)
  rw [sorted]
  constructor
  · exact ordered
  · intro field
    rw [listed.names]
    simp only [List.mem_map, List.mem_filter, Document.declares, List.any_eq_true,
      Bool.and_eq_true, decide_eq_true_eq]
    constructor
    · rintro ⟨c, ⟨inside, used⟩, rfl⟩
      obtain ⟨⟨i, entry⟩, stored, named, indexed⟩ := (stores.collect.each c inside).declared
      obtain ⟨d, known, member⟩ := Builder.mem_entriesOf.mp stored
      exact ⟨d, List.mem_of_getElem? known, entry, member, named, indexed ▸ used⟩
    · rintro ⟨d, stored, entry, member, rfl, used⟩
      obtain ⟨i, known⟩ := List.getElem?_of_mem stored
      obtain ⟨c, inside, named⟩ :=
        stores.collect.all (i, entry) (Builder.mem_entriesOf.mpr ⟨d, known, member⟩)
      have indexed := stores.indexing_eq inside known member named.symm
      exact ⟨c, ⟨inside, indexed ▸ used⟩, named⟩

end Columns

namespace Database

variable {db : Database} {b : Builder} {added : List Document}

theorem preserves_of_indexes (stores : b.Stores added)
    (holds : db.snapshot.payloads.Holds b.payloads)
    (indexes : db.snapshot.Indexes b.columns added.length) : db.Preserves added where
  documents := holds.documents.trans stores.size
  payloads := (indexes.represents stores holds).payloads
  past i beyond := by
    have size : db.snapshot.payloads.documents = added.length := holds.documents.trans stores.size
    unfold payload? Payloads.get?
    rw [size, if_neg (Nat.not_lt_of_le beyond)]
    rfl
  filterable := indexes.filters.enumerates_names stores
  sortable := indexes.sorts.enumerates_names stores
  filters field listed := by
    obtain ⟨index, found⟩ := find?_exists (List.mem_mergeSort.mp listed)
    obtain ⟨c, inside, rfl, _, files⟩ := indexes.filters.column found
    refine ⟨index, c.values.values, found, ?_⟩
    constructor
    · exact stores.enumerates_values inside
    · exact files.dictionary
    · exact files.keys
    · rw [← stores.carriers_eq inside]
      exact files.postings
  sorts field listed := by
    obtain ⟨index, found⟩ := find?_exists (List.mem_mergeSort.mp listed)
    obtain ⟨c, inside, rfl, sortable, files⟩ := indexes.sorts.column found
    refine ⟨index, c.values.values, found, ?_, ?_⟩
    · constructor
      · exact stores.enumerates_values inside
      · exact files.dictionary
      · exact files.keys
      · rw [← stores.carriers_eq inside,
          Column.carriers_eq_filter (stores.sealable inside) sortable]
        exact files.agrees.lists
    · intro i
      rw [files.agrees.ranked, Column.rank, stores.lastValue?_eq inside sortable]
      rfl

/-- Whatever was added can be sealed and opened again, with the digest checked or not, and the
open database has all of it. -/
theorem reopened_preserves (built : ∀ d ∈ added, d.Built)
    (accepted : Builder.ofDocuments added = .ok b) (short : b.Short) {settings : Settings}
    (checked : settings.validate = .ok ()) (journal : Journal) (registry : Registry) (e : Engine) :
    ∃ s db opened, (b.finish journal).1 = .ok s ∧ s.bytes.length = s.size ∧
      openMemory s.bytes settings registry e = (.ok db, opened) ∧ db.Preserves added := by
  have stores := Builder.stores_of_built built accepted
  obtain ⟨db, opened, ran, holds, indexes, _, _⟩ := openWith_form stores short checked memory
    (View.bytes_ofBytes (File.form (RawSegment.formOf b.segments))) (File.placed_ofBytes _)
    registry e
  exact ⟨_, db, opened, finish_eq_ok stores short journal, File.length_form _, ran,
    preserves_of_indexes stores holds indexes⟩

theorem reopened_preserves_three : ∃ s db opened,
    (threeBuilder.finish .empty).1 = .ok s ∧ s.bytes.length = s.size ∧
      openMemory s.bytes .standard (.own 0) .start = (.ok db, opened) ∧
      db.documents = 3 ∧ db.snapshot.sortableFields = ["t"] ∧
      ∃ index, db.snapshot.sort? "t" = some index ∧ index.dictionary.get 0 = .ok [0] ∧
        index.rank? 0 = .ok (some 1) ∧ index.rank? 1 = .ok none ∧ index.rank? 2 = .ok (some 0) := by
  obtain ⟨s, db, opened, finished, length, ran, preserves⟩ := @reopened_preserves threeBuilder
    threeDocuments built_three rfl (by decide +kernel) .standard rfl .empty (.own 0) .start
  have fields : db.snapshot.sortableFields = ["t"] := by
    apply eq_of_ascending preserves.sortable.ascending (List.pairwise_singleton _ _)
    intro field
    rw [preserves.sortable.members]
    simp [threeDocuments, Document.declares, Indexing.isSortable, @eq_comm _ _ field]
  obtain ⟨index, values, found, ⟨enumerates, holds, _, _⟩, ranked⟩ :=
    preserves.sorts "t" (by rw [fields]; exact List.mem_singleton_self _)
  have same : values = [[0], [1]] := by
    apply eq_of_ascending enumerates.ascending (by decide)
    intro value
    rw [enumerates.members]
    simp [threeDocuments, Document.carries, @eq_comm _ _ value, or_comm]
  subst same
  refine ⟨s, db, opened, finished, length, ran, preserves.documents, fields, index, found, ?_, ?_,
    ?_, ?_⟩
  · exact holds.get 0 (by decide)
  · exact ranked 0
  · exact ranked 1
  · exact ranked 2

end Database

end DocStore
