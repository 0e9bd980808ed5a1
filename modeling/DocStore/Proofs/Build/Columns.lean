import DocStore.Build.Builder

/-! Columns: one for each field that has a value, in the order of the names, and in each just
the values of its field. -/
namespace DocStore

namespace Column

variable {c : Column} {entries : List (Nat × FieldEntry)} {document : Nat} {entry : FieldEntry}

structure Collects (c : Column) (entries : List (Nat × FieldEntry)) : Prop where
  declared : ∃ item ∈ entries, item.2.name = c.name ∧ item.2.indexing = c.indexing
  ascending : c.values.values.Pairwise (· < ·)
  values : ∀ value, value ∈ c.values.values ↔ ∃ document, (document, value) ∈ c.postings
  postings : ∀ document value, (document, value) ∈ c.postings ↔
    ∃ entry, (document, entry) ∈ entries ∧ entry.name = c.name ∧ entry.value = value
  width : c.indexing.hasWidth = true →
    ∃ document value, (document, value) ∈ c.postings ∧ c.width = some value.length

theorem mem_record {number : Nat} {value recorded : Bytes} :
    (number, value) ∈ (c.record document recorded).postings ↔
      (number, value) ∈ c.postings ∨ number = document ∧ value = recorded := by
  simp [record]

theorem Collects.other (collects : c.Collects entries) (apart : entry.name ≠ c.name) :
    c.Collects (entries ++ [(document, entry)]) where
  declared := by
    obtain ⟨item, inside, named⟩ := collects.declared
    exact ⟨item, List.mem_append_left _ inside, named⟩
  ascending := collects.ascending
  values := collects.values
  postings number value := by
    rw [collects.postings]
    constructor
    · rintro ⟨found, inside, named⟩
      exact ⟨found, List.mem_append_left _ inside, named⟩
    · rintro ⟨found, inside, named, same⟩
      rcases List.mem_append.mp inside with before | last
      · exact ⟨found, before, named, same⟩
      · cases List.mem_singleton.mp last
        exact absurd named apart
  width := collects.width

/-- What one more value adds, to a column that may be new. -/
theorem collects_record (declared : ∃ item ∈ entries ++ [(document, entry)],
      item.2.name = c.name ∧ item.2.indexing = c.indexing)
    (ascending : c.values.values.Pairwise (· < ·))
    (values : ∀ value, value ∈ c.values.values ↔ ∃ document, (document, value) ∈ c.postings)
    (postings : ∀ number value, (number, value) ∈ c.postings ↔
      ∃ entry, (number, entry) ∈ entries ∧ entry.name = c.name ∧ entry.value = value)
    (same : entry.name = c.name) :
    (c.record document entry.value).Collects (entries ++ [(document, entry)]) where
  declared := declared
  ascending := ValueSet.insertInto_ascending entry.value ascending
  values value := by
    have inserted : value ∈ (c.record document entry.value).values.values ↔
        value = entry.value ∨ value ∈ c.values.values := ValueSet.mem_insertInto
    rw [inserted, values]
    simp only [mem_record, exists_or, exists_eq_left]
    exact or_comm
  postings number value := by
    rw [mem_record, postings]
    constructor
    · rintro (⟨found, inside, named⟩ | ⟨rfl, rfl⟩)
      · exact ⟨found, List.mem_append_left _ inside, named⟩
      · exact ⟨entry, List.mem_append_right _ (List.mem_singleton_self _), same, rfl⟩
    · rintro ⟨found, inside, named, rfl⟩
      rcases List.mem_append.mp inside with before | last
      · exact Or.inl ⟨found, before, named, rfl⟩
      · cases List.mem_singleton.mp last
        exact Or.inr ⟨rfl, rfl⟩
  width wide := ⟨document, entry.value, mem_record.mpr (Or.inr ⟨rfl, rfl⟩), if_pos wide⟩

end Column

namespace Builder

variable {columns : List Column} {entries : List (Nat × FieldEntry)} {document : Nat}
  {entry : FieldEntry} {c : Column}

def Named (columns : List Column) : Prop := columns.Pairwise fun a b => a.name < b.name

def newColumn (document : Nat) (entry : FieldEntry) : Column :=
  (Column.empty entry.name entry.indexing).record document entry.value

theorem mem_record (named : Named columns) : c ∈ record document entry columns ↔
    (c ∈ columns ∧ c.name ≠ entry.name) ∨
    (∃ old ∈ columns, old.name = entry.name ∧ c = old.record document entry.value) ∨
    (∀ old ∈ columns, old.name ≠ entry.name) ∧ c = newColumn document entry := by
  induction columns with
  | nil => simp [record, newColumn]
  | cons column rest ih =>
    obtain ⟨least, named⟩ := List.pairwise_cons.mp named
    rw [record]
    by_cases lower : entry.name < column.name
    · have apart : ∀ old ∈ column :: rest, old.name ≠ entry.name := fun old inside same => by
        rcases List.mem_cons.mp inside with rfl | later
        · exact String.lt_irrefl _ (same ▸ lower)
        · exact String.lt_irrefl _ (same ▸ String.lt_trans lower (least old later))
      rw [if_pos lower, List.mem_cons]
      constructor
      · rintro (rfl | inside)
        · exact Or.inr (Or.inr ⟨apart, rfl⟩)
        · exact Or.inl ⟨inside, apart c inside⟩
      · rintro (⟨inside, _⟩ | ⟨old, inside, same, _⟩ | ⟨_, rfl⟩)
        · exact Or.inr inside
        · exact absurd same (apart old inside)
        · exact Or.inl rfl
    · rw [if_neg lower]
      by_cases same : entry.name = column.name
      · rw [if_pos same, List.mem_cons]
        constructor
        · rintro (rfl | later)
          · exact Or.inr (Or.inl ⟨column, List.mem_cons_self, same.symm, rfl⟩)
          · refine Or.inl ⟨List.mem_cons_of_mem _ later, fun again => ?_⟩
            exact String.lt_irrefl _ (again.trans same ▸ least c later)
        · rintro (⟨inside, apart⟩ | ⟨old, inside, again, rfl⟩ | ⟨none, _⟩)
          · rcases List.mem_cons.mp inside with rfl | later
            · exact absurd same.symm apart
            · exact Or.inr later
          · rcases List.mem_cons.mp inside with rfl | later
            · exact Or.inl rfl
            · exact absurd (again.trans same ▸ least old later) (String.lt_irrefl _)
          · exact absurd same.symm (none column List.mem_cons_self)
      · rw [if_neg same, List.mem_cons, ih named]
        simp only [List.mem_cons, forall_eq_or_imp, exists_eq_or_imp]
        have apart : column.name ≠ entry.name := fun again => same again.symm
        grind

theorem named_record (named : Named columns) : Named (record document entry columns) := by
  induction columns with
  | nil => exact List.pairwise_singleton _ _
  | cons column rest ih =>
    obtain ⟨least, later⟩ := List.pairwise_cons.mp named
    rw [record]
    split
    · rename_i lower
      apply List.Pairwise.cons _ named
      intro other inside
      rcases List.mem_cons.mp inside with rfl | behind
      · exact lower
      · exact String.lt_trans lower (least other behind)
    · split
      · exact List.pairwise_cons.mpr ⟨least, later⟩
      · rename_i above apart
        apply List.Pairwise.cons _ (ih later)
        intro other inside
        rcases (mem_record later).mp inside with ⟨behind, _⟩ | ⟨old, behind, _, rfl⟩ | ⟨_, rfl⟩
        · exact least other behind
        · exact least old behind
        · exact Std.lt_of_le_of_ne (String.not_lt.mp above) (Ne.symm apart)

/-- Columns collect field values: each column its own, and each value in some column. -/
structure Collect (columns : List Column) (entries : List (Nat × FieldEntry)) : Prop where
  named : Named columns
  each : ∀ c ∈ columns, c.Collects entries
  all : ∀ item ∈ entries, ∃ c ∈ columns, c.name = item.2.name

theorem collect_nil : Collect [] [] where
  named := List.Pairwise.nil
  each _ none := absurd none List.not_mem_nil
  all _ none := absurd none List.not_mem_nil

theorem Collect.record (collect : Collect columns entries) (document : Nat) (entry : FieldEntry) :
    Collect (record document entry columns) (entries ++ [(document, entry)]) where
  named := named_record collect.named
  each c listed := by
    rcases (mem_record collect.named).mp listed with
      ⟨inside, apart⟩ | ⟨old, inside, same, rfl⟩ | ⟨none, rfl⟩
    · exact (collect.each c inside).other (Ne.symm apart)
    · obtain ⟨⟨item, before, declared⟩, ascending, values, postings, _⟩ := collect.each old inside
      exact Column.collects_record ⟨item, List.mem_append_left _ before, declared⟩ ascending values
        postings same.symm
    · refine Column.collects_record
        ⟨_, List.mem_append_right _ (List.mem_singleton_self _), rfl, rfl⟩ List.Pairwise.nil
        (fun value => by simp [Column.empty]) (fun number value => ?_) rfl
      refine ⟨fun none => absurd none List.not_mem_nil, ?_⟩
      rintro ⟨found, before, named, _⟩
      obtain ⟨old, inside, again⟩ := collect.all _ before
      exact absurd (again.trans named) (none old inside)
  all item inside := by
    have found : ∀ name, (∃ old ∈ columns, old.name = name) ∨ entry.name = name →
        ∃ c ∈ Builder.record document entry columns, c.name = name := by
      rintro name known
      by_cases same : entry.name = name
      · by_cases old : ∃ old ∈ columns, old.name = entry.name
        · obtain ⟨old, inside, again⟩ := old
          exact ⟨_, (mem_record collect.named).mpr (Or.inr (Or.inl ⟨old, inside, again, rfl⟩)),
            again.trans same⟩
        · refine ⟨_, (mem_record collect.named).mpr (Or.inr (Or.inr ⟨?_, rfl⟩)), same⟩
          exact fun other inside again => old ⟨other, inside, again⟩
      · obtain ⟨old, inside, again⟩ := known.resolve_right same
        exact ⟨old, (mem_record collect.named).mpr
          (Or.inl ⟨inside, fun other => same (other.symm.trans again)⟩), again⟩
    rcases List.mem_append.mp inside with before | last
    · exact found _ (Or.inl (collect.all item before))
    · exact found _ (Or.inr (List.mem_singleton.mp last ▸ rfl))

theorem Collect.recordAll (collect : Collect columns entries) (document : Nat)
    (fields : List FieldEntry) :
    Collect (fields.foldl (fun columns entry => Builder.record document entry columns) columns)
      (entries ++ fields.map (document, ·)) := by
  induction fields generalizing columns entries with
  | nil => simpa using collect
  | cons entry rest ih => simpa using ih (collect.record document entry)

end Builder

end DocStore
