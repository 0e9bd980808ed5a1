import DocStore.Proofs.Build.Freezing
import DocStore.Proofs.Database.Opening

/-! Reopening what was sealed: the snapshot has an index for just the fields that were declared
for it, and a query on it sees the documents that were added. -/
namespace DocStore

section Declared

variable {ι : Type} {indexes more : List ι} {nameOf : ι → String} {columns : List Column}
  {declared : Column → Bool} {right : Column → ι → Prop} {c : Column}

theorem find?_exists {name : String} (named : name ∈ indexes.map nameOf) :
    ∃ index, indexes.find? (nameOf · = name) = some index := by
  obtain ⟨index, there, same⟩ := List.mem_map.mp named
  apply Option.isSome_iff_exists.mp
  exact List.find?_isSome.mpr ⟨index, there, decide_eq_true same⟩

structure Declared (indexes : List ι) (nameOf : ι → String) (columns : List Column)
    (declared : Column → Bool) (right : Column → ι → Prop) : Prop where
  names : indexes.map nameOf = (columns.filter declared).map (·.name)
  each : ∀ index ∈ indexes, ∃ c ∈ columns, nameOf index = c.name ∧ declared c = true ∧ right c index

variable (listed : Declared indexes nameOf columns declared right)

include listed

/-- The index that is found under a name is that of the column with the name. -/
theorem Declared.column {name : String} {index : ι}
    (found : indexes.find? (nameOf · = name) = some index) :
    ∃ c ∈ columns, c.name = name ∧ declared c = true ∧ right c index := by
  obtain ⟨c, inside, named, use, held⟩ := listed.each index (List.mem_of_find?_eq_some found)
  have same : nameOf index = name := by simpa using List.find?_some found
  exact ⟨c, inside, named.symm.trans same, use, held⟩

/-- A column that was declared for the use has an index. -/
theorem Declared.find?_ne_none (inside : c ∈ columns) (use : declared c = true) :
    indexes.find? (nameOf · = c.name) ≠ none := by
  have named := List.mem_map_of_mem (f := (·.name)) (List.mem_filter.mpr ⟨inside, use⟩)
  rw [← listed.names] at named
  obtain ⟨index, found⟩ := find?_exists named
  rw [found]
  exact Option.some_ne_none index

omit listed

variable (names : more.map nameOf = if declared c then [c.name] else [])

include names

theorem declared_of_names {index : ι} (inside : index ∈ more) :
    nameOf index = c.name ∧ declared c = true := by
  have named := List.mem_map_of_mem (f := nameOf) inside
  rw [names] at named
  split at named
  · exact ⟨List.mem_singleton.mp named, ‹_›⟩
  · exact absurd named List.not_mem_nil

include listed

/-- A column with a name of its own has no index yet. -/
theorem Declared.fresh (apart : ∀ other ∈ columns, other.name ≠ c.name) :
    ∀ index ∈ more, indexes.find? (nameOf · = nameOf index) = none := by
  intro index inside
  apply List.find?_eq_none.mpr
  intro other before same
  obtain ⟨old, kept, named, _⟩ := listed.each other before
  rw [decide_eq_true_eq, (declared_of_names names inside).1] at same
  exact apart old kept (named.symm.trans same)

theorem Declared.append (sound : ∀ index ∈ more, right c index) :
    Declared (indexes ++ more) nameOf (columns ++ [c]) declared right where
  names := by
    rw [List.map_append, List.filter_append, List.map_append, listed.names, names]
    cases use : declared c <;> simp [use]
  each index inside := by
    rcases List.mem_append.mp inside with before | last
    · obtain ⟨column, kept, rest⟩ := listed.each index before
      exact ⟨column, List.mem_append_left _ kept, rest⟩
    · obtain ⟨named, use⟩ := declared_of_names names last
      exact ⟨c, List.mem_append_right _ (List.mem_singleton_self _), named, use, sound index last⟩

end Declared

namespace Snapshot

variable {s : Snapshot} {columns : List Column} {c : Column} {documents : Nat}
  {segment : Segment}

structure Indexes (s : Snapshot) (columns : List Column) (documents : Nat) : Prop where
  filters : Declared s.filters (·.name) columns (·.indexing.isFilterable)
    fun c index => index.Files documents c.values.values (c.carriers documents)
  sorts : Declared s.sorts (·.name) columns (·.indexing.isSortable)
    fun c index => index.Files documents c.values.values c.rank

theorem addSegment_eq_ok (freshFilters : ∀ index ∈ segment.filters, s.filter? index.name = none)
    (freshSorts : ∀ index ∈ segment.sorts, s.sort? index.name = none) :
    s.addSegment segment =
      .ok { s with filters := s.filters ++ segment.filters, sorts := s.sorts ++ segment.sorts } := by
  have addFilter : ∀ index, s.filter? index.name = none →
      s.addFilter index = .ok { s with filters := s.filters ++ [index] } := by
    intro index fresh
    rw [Snapshot.addFilter, fresh]
    rfl
  have addSort : ∀ (t : Snapshot) index, t.sort? index.name = none →
      t.addSort index = .ok { t with sorts := t.sorts ++ [index] } := by
    intro t index fresh
    rw [Snapshot.addSort, fresh]
    rfl
  cases segment with
  | payloads listed => simp [addSegment, Segment.filters, Segment.sorts]
  | filter index =>
    rw [addSegment, addFilter index (freshFilters index (List.mem_singleton_self _))]
    simp [Segment.filters, Segment.sorts]
  | sort index =>
    rw [addSegment, addSort s index (freshSorts index (List.mem_singleton_self _))]
    simp [Segment.filters, Segment.sorts]
  | full index order =>
    rw [addSegment, addFilter index (freshFilters index (List.mem_singleton_self _)), ok_bind]
    exact addSort _ order (freshSorts order (List.mem_singleton_self _))

/-- The indexes of one more column are added, since no other column has its name. -/
theorem Indexes.add (indexes : s.Indexes columns documents)
    (apart : ∀ other ∈ columns, other.name ≠ c.name)
    (read : segment.Indexes c.indexing.segmentKind c.name documents c.values.values
      (c.carriers documents) c.rank) :
    ∃ t, s.addSegment segment = .ok t ∧ t.payloads = s.payloads ∧
      t.Indexes (columns ++ [c]) documents := by
  obtain ⟨filterNames, sortNames, filters, sorts⟩ := read
  rw [Indexing.isFilter_segmentKind] at filterNames
  rw [Indexing.isSort_segmentKind] at sortNames
  have freshFilters := indexes.filters.fresh filterNames apart
  have freshSorts := indexes.sorts.fresh sortNames apart
  refine ⟨_, addSegment_eq_ok freshFilters freshSorts, rfl, ?_⟩
  constructor
  · exact indexes.filters.append filterNames filters
  · exact indexes.sorts.append sortNames sorts

theorem addSegments_eq_ok {raws : List RawSegment} {rest : List Column} {body : Column → Bytes}
    (indexes : s.Indexes columns documents) (size : s.documents = documents)
    (named : Builder.Named (columns ++ rest))
    (written : raws.map RawSegment.written =
      rest.map fun c => (c.indexing.segmentKind, body c))
    (reads : ∀ c ∈ rest, Decoder.Reads (Segment.decodeBody c.indexing.segmentKind documents)
      (body c) fun segment =>
        segment.Indexes c.indexing.segmentKind c.name documents c.values.values
          (c.carriers documents) c.rank) :
    ∃ t, raws.foldlM (fun s raw => do s.addSegment (← raw.decode s.documents)) s =
        (.ok t : Except (Failure FormatError) Snapshot) ∧
      t.payloads = s.payloads ∧ t.Indexes (columns ++ rest) documents := by
  induction rest generalizing raws s columns with
  | nil =>
    obtain rfl := List.map_eq_nil_iff.mp written
    exact ⟨s, rfl, rfl, by simpa using indexes⟩
  | cons c rest ih =>
    obtain ⟨raw, others, rfl, same, later⟩ := List.map_eq_cons_iff.mp written
    obtain ⟨kind, left⟩ := Prod.mk.inj same
    have decoded := reads c List.mem_cons_self
    rw [← show raw.kind = c.indexing.segmentKind from kind] at decoded
    obtain ⟨segment, accepted, read⟩ := RawSegment.decode_eq_ok decoded left
    have fresh : ∀ other ∈ columns, other.name ≠ c.name := fun other before same =>
      String.lt_irrefl _ (same ▸ (List.pairwise_append.mp named).2.2 other before c
        List.mem_cons_self)
    rw [kind] at read
    obtain ⟨t, added, stored, more⟩ := indexes.add fresh read
    obtain ⟨last, folded, kept, all⟩ := ih more ((congrArg Payloads.documents stored).trans size)
      (by simpa using named) later fun other inside => reads other (List.mem_cons_of_mem _ inside)
    refine ⟨last, ?_, kept.trans stored, by simpa using all⟩
    rw [List.foldlM_cons, size, accepted, ok_bind, added, ok_bind]
    exact folded

variable {b : Builder} {added : List Document}

/-- The segments of a builder are read back. -/
theorem ofSegments_eq_ok {raws : List RawSegment} (stores : b.Stores added) (short : b.Short)
    (written : raws.map RawSegment.written = b.segments) :
    ∃ s, ofSegments raws = .ok s ∧ s.payloads.Holds b.payloads ∧
      s.Indexes b.columns added.length := by
  obtain ⟨first, others, rfl, same, later⟩ := List.map_eq_cons_iff.mp written
  obtain ⟨kind, left⟩ := Prod.mk.inj same
  have indexed : ∀ raw ∈ others, raw.kind ≠ .payload := by
    intro raw inside
    have mapped := List.mem_map_of_mem (f := RawSegment.written) inside
    rw [later] at mapped
    obtain ⟨c, _, again⟩ := List.mem_map.mp mapped
    rw [← show c.indexing.segmentKind = raw.kind from congrArg Prod.fst again]
    rcases c.indexing with ⟨_ | _ | _ | _, _ | _⟩ <;> decide
  have payload : (first :: others).filter (·.kind = .payload) = [first] := by
    rw [List.filter_cons_of_pos (by simpa using kind), List.filter_eq_nil_iff.mpr]
    simpa using indexed
  have columns : (first :: others).filter (·.kind ≠ .payload) = others := by
    rw [List.filter_cons_of_neg (by simpa using kind), List.filter_eq_self.mpr]
    simpa using indexed
  have size : b.payloads.length < 2 ^ 32 ∧ b.payloads.flatten.length < 2 ^ 64 := by
    have length := short.payloads
    simp only [Payloads.form, List.length_append, Bytes.length_ofUInt32] at length
    rw [Bytes.length_flatMap_width fun _ _ => Bytes.length_ofUInt64 _, Bytes.length_offsets,
      List.length_map] at length
    omega
  have reads : Decoder.Reads (Segment.decodeBody first.kind 0) (Payloads.form b.payloads)
      fun segment => ∃ p : Payloads, segment = .payloads p ∧ p.Holds b.payloads := by
    rw [show first.kind = .payload from kind]
    exact (Payloads.decode_reads size.1 size.2).bind_last fun p holds =>
      Decoder.Reads.pure ⟨p, rfl, holds⟩
  obtain ⟨_, decoded, p, rfl, holds⟩ := RawSegment.decode_eq_ok reads left
  have documents : p.documents = added.length := holds.documents.trans stores.size
  have empty : Indexes ⟨p, [], []⟩ [] added.length := ⟨⟨rfl, nofun⟩, ⟨rfl, nofun⟩⟩
  obtain ⟨s, folded, stored, indexes⟩ := addSegments_eq_ok empty documents
    (List.nil_append _ ▸ stores.collect.named) later fun c inside =>
      Column.body_reads (stores.sealable inside)
        (Nat.lt_of_le_of_lt (Nat.le_add_right _ 4) (short.dictionaries c inside))
        (stores.size ▸ Builder.bodyOf_eq stores short inside)
        (short.bodies c inside _ (Builder.bodyOf_eq stores short inside))
  refine ⟨s, ?_, stored ▸ holds, indexes⟩
  unfold ofSegments payloadsOf
  rw [payload]
  simp only [decoded, ok_bind, pure_eq_ok]
  rw [columns]
  exact folded

/-- A sealed file is read back, with its digest checked or not. -/
theorem decode_form (stores : b.Stores added) (short : b.Short) {file : View}
    (stored : file.bytes = File.form (RawSegment.formOf b.segments))
    (placed : file.start + File.headerLength < sizeLimit) (verify : Bool) :
    ∃ s, decode file verify = .ok s ∧
      s.payloads.Holds b.payloads ∧ s.Indexes b.columns added.length := by
  obtain ⟨region, opened, bytes, _, begins⟩ :=
    @File.openRegion_framed file verify _ _ stored (Sha256.length_digest _) fun _ => rfl
  obtain ⟨raws, split, written⟩ := RawSegment.split_form (Builder.short_segments stores short)
    bytes (begins ▸ placed)
  obtain ⟨s, accepted, held⟩ := ofSegments_eq_ok stores short written
  refine ⟨s, ?_, held⟩
  rw [decode, opened, ok_bind, split, ok_bind, accepted]

/-- What is read from a snapshot is what some documents hold. -/
structure Represents (s : Snapshot) (added : List Document) : Prop where
  documents : s.documents = added.length
  payloads : ∀ (i : Nat) (d : Document), added[i]? = some d → ∃ view : View,
    s.payloads.get? i = .ok (some view) ∧ d.payload = some view.bytes
  answers : s.source.Answers True fun field test i =>
    ∃ d, added[i]? = some d ∧ d.passes field test = true
  orders : s.source.Orders fun field i => added[i]?.bind (·.sortValue field)

section Represents

variable (stores : b.Stores added) (indexes : s.Indexes b.columns added.length)

include stores indexes

theorem Indexes.unite_adds (field : String) (test : ValueTest) :
    Adds added.length True (s.source.unite field · test) fun i =>
      ∃ d, added[i]? = some d ∧ d.passes field test = true := by
  simp only [source]
  cases known : s.filter? field with
  | some index =>
    obtain ⟨c, inside, named, filterable, files⟩ := indexes.filters.column known
    apply (files.answers.unite test).congr
    intro i
    rw [Column.carries_carriers (stores.sealable inside).content,
      stores.passes_iff inside filterable, named]
  | none =>
    apply adds_nothing
    rintro i ⟨d, there, passes⟩
    obtain ⟨entry, member, passes⟩ := List.any_eq_true.mp passes
    simp only [Bool.and_eq_true, decide_eq_true_eq] at passes
    obtain ⟨⟨rfl, filterable⟩, _⟩ := passes
    obtain ⟨c, inside, named⟩ :=
      stores.collect.all (i, entry) (Builder.mem_entriesOf.mpr ⟨d, there, member⟩)
    have indexed := stores.indexing_eq inside there member named.symm
    exact indexes.filters.find?_ne_none inside (indexed ▸ filterable) (named ▸ known)

theorem Indexes.orders (size : s.documents = added.length) :
    s.source.Orders fun field i => added[i]?.bind (·.sortValue field) where
  small := by
    have limit := stores.limit
    unfold Builder.documentLimit SortIndex.noRank at limit
    rw [show s.source.documents = added.length from size]
    unfold sizeLimit
    omega
  indexed field index known := by
    obtain ⟨c, inside, named, sortable, files⟩ := indexes.sorts.column known
    have ranking := stores.ranking inside sortable
    rw [named] at ranking
    exact ⟨c.rank, (show s.source.documents = added.length from size) ▸ files.agrees, ranking⟩
  plain field i known := by
    cases there : added[i]? with
    | none => rfl
    | some d =>
      cases found : d.sortValue field with
      | none => exact found
      | some value =>
        obtain ⟨entry, chosen, _⟩ := Option.map_eq_some_iff.mp found
        have own : entry.name = field ∧ entry.indexing.isSortable = true := by
          simpa using List.find?_some chosen
        have member := List.mem_of_find?_eq_some chosen
        obtain ⟨c, inside, named⟩ :=
          stores.collect.all (i, entry) (Builder.mem_entriesOf.mpr ⟨d, there, member⟩)
        have indexed := stores.indexing_eq inside there member named.symm
        exact absurd (named.trans own.1 ▸ known)
          (indexes.sorts.find?_ne_none inside (indexed ▸ own.2))

theorem Indexes.represents (holds : s.payloads.Holds b.payloads) : s.Represents added where
  documents := holds.documents.trans stores.size
  payloads i d there := by
    have place := congrArg (·[i]?) stores.payloads
    simp only [List.getElem?_map, there, Option.map_some] at place
    obtain ⟨payload, known, same⟩ := Option.map_eq_some_iff.mp place
    obtain ⟨inside, here⟩ := List.getElem?_eq_some_iff.mp known
    obtain ⟨view, read, bytes⟩ := holds.get i inside
    exact ⟨view, read, by rw [← same, bytes, here]⟩
  answers := by
    have size : s.source.documents = added.length := holds.documents.trans stores.size
    refine ⟨(indexes.orders stores size).small, ?_, ?_⟩
    · rintro field test i ⟨d, there, _⟩
      rw [size]
      exact (List.getElem?_eq_some_iff.mp there).1
    · rw [size]
      exact indexes.unite_adds stores
  orders := indexes.orders stores (holds.documents.trans stores.size)

end Represents

theorem Represents.sound (represents : s.Represents added) : s.source.Sound where
  small := represents.answers.small
  sorts field index known := by
    obtain ⟨rank, agrees, _⟩ := represents.orders.indexed field index known
    exact agrees.safe
  stored i inside := by
    rw [show s.source.documents = added.length from represents.documents] at inside
    obtain ⟨view, read, _⟩ := represents.payloads i _ (List.getElem?_eq_getElem inside)
    exact ⟨view, read⟩

end Snapshot

end DocStore
