import DocStore.Proofs.Build.Sealing
import DocStore.Proofs.Query.Meaning

/-! A builder that stores some documents freezes into segments, and its columns answer what the
documents answer. -/
namespace DocStore

namespace Builder

variable {b : Builder} {documents : List Document} {c : Column} {i : Nat} {entry : FieldEntry}

section Stores

variable (stores : b.Stores documents) (inside : c ∈ b.columns)

include stores inside

theorem Stores.mem_postings {value : Bytes} : (i, value) ∈ c.postings ↔
    ∃ d, documents[i]? = some d ∧ ∃ entry ∈ d.fields, entry.name = c.name ∧ entry.value = value := by
  rw [(stores.collect.each c inside).postings]
  constructor
  · rintro ⟨entry, listed, named⟩
    obtain ⟨d, known, member⟩ := mem_entriesOf.mp listed
    exact ⟨d, known, entry, member, named⟩
  · rintro ⟨d, known, entry, member, named⟩
    exact ⟨entry, mem_entriesOf.mpr ⟨d, known, member⟩, named⟩

/-- Every value of a field is indexed as its column is. -/
theorem Stores.indexing_eq {d : Document} (known : documents[i]? = some d)
    (member : entry ∈ d.fields) (named : entry.name = c.name) : entry.indexing = c.indexing := by
  obtain ⟨item, listed, same, declared⟩ := (stores.collect.each c inside).declared
  have own := mem_entriesOf.mpr ⟨d, known, member⟩
  exact (stores.uniform (i, entry) own item listed (named.trans same.symm)).1.trans declared

theorem Stores.sealable : c.Sealable documents.length where
  ascending := (stores.collect.each c inside).ascending
  values := (stores.collect.each c inside).values
  small := stores.limit
  below posting posted := by
    obtain ⟨d, known, _⟩ := (stores.mem_postings inside).mp posted
    exact (List.getElem?_eq_some_iff.mp known).1
  uniform wide v first w second := by
    obtain ⟨i, posted⟩ := ((stores.collect.each c inside).values v).mp first
    obtain ⟨j, also⟩ := ((stores.collect.each c inside).values w).mp second
    obtain ⟨d, known, entry, member, named, rfl⟩ := (stores.mem_postings inside).mp posted
    obtain ⟨d', there, other, listed, again, rfl⟩ := (stores.mem_postings inside).mp also
    have indexed := stores.indexing_eq inside known member named
    exact (stores.uniform (i, entry) (mem_entriesOf.mpr ⟨d, known, member⟩) (j, other)
      (mem_entriesOf.mpr ⟨d', there, listed⟩) (named.trans again.symm)).2 (indexed ▸ wide)
  single sortable i v w posted also := by
    obtain ⟨d, known, entry, member, named, rfl⟩ := (stores.mem_postings inside).mp posted
    obtain ⟨d', there, other, listed, again, rfl⟩ := (stores.mem_postings inside).mp also
    obtain rfl := Option.some.inj (known.symm.trans there)
    have indexed := stores.indexing_eq inside known member named
    have coherent := stores.coherent d (List.mem_of_getElem? known)
    rw [coherent.eq_of_sortable member listed (named.trans again.symm) (indexed ▸ sortable)]

theorem Stores.passes_iff (filterable : c.indexing.isFilterable = true) (test : ValueTest) :
    c.Passes test i ↔ ∃ d, documents[i]? = some d ∧ d.passes c.name test = true := by
  simp only [Column.Passes, stores.mem_postings inside, Document.passes, List.any_eq_true,
    Bool.and_eq_true, decide_eq_true_eq]
  constructor
  · rintro ⟨value, ⟨d, known, entry, member, named, rfl⟩, passes⟩
    have indexed := stores.indexing_eq inside known member named
    exact ⟨d, known, entry, member, ⟨named, indexed ▸ filterable⟩, passes⟩
  · rintro ⟨d, known, entry, member, ⟨named, _⟩, passes⟩
    exact ⟨entry.value, ⟨d, known, entry, member, named, rfl⟩, passes⟩

theorem Stores.lastValue?_eq (sortable : c.indexing.isSortable = true) :
    c.lastValue? i = documents[i]?.bind (·.sortValue c.name) := by
  have sealable := stores.sealable inside
  apply Option.ext
  intro value
  rw [Column.lastValue?_eq sealable sortable, stores.mem_postings inside, Option.bind_eq_some_iff]
  refine exists_congr fun d => and_congr_right fun known => ?_
  rw [Document.sortValue, Option.map_eq_some_iff]
  constructor
  · rintro ⟨entry, member, named, rfl⟩
    have indexed := stores.indexing_eq inside known member named
    have chosen : (decide (entry.name = c.name) && entry.indexing.isSortable) = true := by
      simp [named, indexed, sortable]
    cases found : d.fields.find? fun entry => entry.name = c.name && entry.indexing.isSortable with
    | none => exact absurd chosen (List.find?_eq_none.mp found entry member)
    | some other =>
      have named' : other.name = c.name ∧ other.indexing.isSortable = true := by
        simpa using List.find?_some found
      have coherent := stores.coherent d (List.mem_of_getElem? known)
      rw [coherent.eq_of_sortable (List.mem_of_find?_eq_some found) member
        (named'.1.trans named.symm) named'.2]
      exact ⟨entry, rfl, rfl⟩
  · rintro ⟨entry, found, rfl⟩
    have named : entry.name = c.name ∧ entry.indexing.isSortable = true := by
      simpa using List.find?_some found
    exact ⟨entry, List.mem_of_find?_eq_some found, named.1, rfl⟩

/-- The ranks of a sortable column stand in the order of the values of its field. -/
theorem Stores.ranking (sortable : c.indexing.isSortable = true) :
    SortIndex.Ranking c.rank fun i => documents[i]?.bind (·.sortValue c.name) := by
  have sealable := stores.sealable inside
  have ranked : ∀ {i v}, documents[i]?.bind (·.sortValue c.name) = some v →
      c.rank i = c.values.rank? v := by
    intro i v known
    rw [Column.rank, stores.lastValue?_eq inside sortable, known]
    rfl
  constructor
  · intro i
    cases known : documents[i]?.bind (·.sortValue c.name) with
    | none => simp [Column.rank, stores.lastValue?_eq inside sortable, known]
    | some v =>
      rw [← stores.lastValue?_eq inside sortable] at known
      obtain ⟨key, there⟩ := Column.rank?_exists sealable.content
        ((Column.lastValue?_eq sealable sortable).mp known)
      simp [Column.rank, known, there]
  · intro i j a b v w first second left right
    rw [ranked left] at first
    rw [ranked right] at second
    obtain ⟨inside, rfl, _⟩ := List.idxOf?_eq_some_iff.mp first
    obtain ⟨within, rfl, _⟩ := List.idxOf?_eq_some_iff.mp second
    have ordered := List.pairwise_iff_getElem.mp sealable.ascending
    constructor
    · exact ordered a b inside within
    · intro lower
      rcases Nat.lt_trichotomy a b with before | rfl | after
      · exact before
      · exact absurd lower (List.lt_irrefl _)
      · exact absurd lower (List.lt_asymm (ordered b a within inside after))

end Stores

/-- Everything that is sealed is shorter than a 32-bit length can tell. A body starts with its
dictionary, so that dictionaries are named only for columns that have no body at all. -/
structure Short (b : Builder) : Prop where
  payloads : (Payloads.form b.payloads).length + 4 < 2 ^ 32
  dictionaries : ∀ c ∈ b.columns, (c.values.form c.indexing.dictionaryKind).length + 4 < 2 ^ 32
  bodies : ∀ c ∈ b.columns, ∀ body, c.form b.size = .ok body → body.length + 4 < 2 ^ 32

def bodyOf (b : Builder) (c : Column) : Bytes := (c.form b.size).toOption.getD []

def segments (b : Builder) : List RawSegment.Written :=
  (.payload, Payloads.form b.payloads) ::
    b.columns.map fun c => (c.indexing.segmentKind, b.bodyOf c)

theorem short_iff : b.Short ↔ (Payloads.form b.payloads).length + 4 < 2 ^ 32 ∧
    ∀ c ∈ b.columns, (c.values.form c.indexing.dictionaryKind).length + 4 < 2 ^ 32 ∧
      (b.bodyOf c).length + 4 < 2 ^ 32 := by
  constructor
  · rintro ⟨payloads, dictionaries, bodies⟩
    refine ⟨payloads, fun c inside => ⟨dictionaries c inside, ?_⟩⟩
    unfold bodyOf
    cases formed : c.form b.size with
    | error failure => exact (by decide : 0 + 4 < 2 ^ 32)
    | ok body => exact bodies c inside body formed
  · rintro ⟨payloads, columns⟩
    refine ⟨payloads, fun c inside => (columns c inside).1, fun c inside body formed => ?_⟩
    have short := (columns c inside).2
    rw [bodyOf, formed] at short
    exact short

instance : Decidable b.Short := decidable_of_iff _ short_iff.symm

theorem bodyOf_eq (stores : b.Stores documents) (short : b.Short) (inside : c ∈ b.columns) :
    c.form b.size = .ok (b.bodyOf c) := by
  obtain ⟨_, _, _, body, _, _, formed, _⟩ := Column.form_eq_ok (stores.sealable inside)
    (Nat.lt_of_le_of_lt (Nat.le_add_right _ 4) (short.dictionaries c inside))
  rw [← stores.size] at formed
  rw [bodyOf, formed]
  rfl

theorem short_segments (stores : b.Stores documents) (short : b.Short) :
    ∀ s ∈ b.segments, s.2.length + 4 < 2 ^ 32 := by
  intro s listed
  rcases List.mem_cons.mp listed with rfl | later
  · exact short.payloads
  · obtain ⟨c, inside, rfl⟩ := List.mem_map.mp later
    exact short.bodies c inside _ (bodyOf_eq stores short inside)

/-- Columns that have a body are written one after the other, behind the payloads. -/
theorem freeze_of_formed (formed : ∀ c ∈ b.columns, c.form b.size = .ok (b.bodyOf c)) :
    b.freeze = .ok ⟨b.size, b.columns.length, RawSegment.formOf b.segments⟩ := by
  unfold freeze
  rw [mapM_eq_ok (g := fun c => Segment.form c.indexing.segmentKind (b.bodyOf c))]
  · rw [RawSegment.formOf, segments, List.flatMap_cons, List.flatMap_map, List.flatMap_def]
    rfl
  · intro c inside
    rw [formed c inside]
    rfl

/-- Sealing succeeds, and writes the segments one after the other. -/
theorem freeze_eq_ok (stores : b.Stores documents) (short : b.Short) :
    b.freeze = .ok ⟨b.size, b.columns.length, RawSegment.formOf b.segments⟩ :=
  freeze_of_formed fun _ inside => bodyOf_eq stores short inside

end Builder

end DocStore
