import DocStore.Proofs.Build.Sealing

/-! Stored filter indexes. Any values of documents can be written with each form of dictionary
and of postings, and the index that is read back adds the documents that a look at all the
values would add. -/
namespace DocStore.Column

variable {c : Column} {pairs : List (Nat × Bytes)} {documents : Nat} {kind : DictionaryKind}
  {encoding : PostingsEncoding} {name : String} {indexing : Indexing}

def ofPairs (name : String) (indexing : Indexing) (pairs : List (Nat × Bytes)) : Column :=
  pairs.foldl (fun c pair => c.record pair.1 pair.2) (empty name indexing)

theorem ofPairs_spec (name : String) (indexing : Indexing) (pairs : List (Nat × Bytes)) :
    (ofPairs name indexing pairs).postings = pairs ∧
      (ofPairs name indexing pairs).values = ValueSet.ofList (pairs.map (·.2)) := by
  suffices steps : ∀ c : Column,
      (pairs.foldl (fun c pair => c.record pair.1 pair.2) c).postings = c.postings ++ pairs ∧
        (pairs.foldl (fun c pair => c.record pair.1 pair.2) c).values =
          (pairs.map (·.2)).foldl ValueSet.insert c.values by
    exact steps (empty name indexing)
  induction pairs with
  | nil => simp
  | cons pair rest ih =>
    intro c
    obtain ⟨postings, values⟩ := ih (c.record pair.1 pair.2)
    constructor
    · rw [List.foldl_cons, postings, record, List.append_assoc, List.singleton_append]
    · rw [List.foldl_cons, values]
      rfl

theorem content_ofPairs (existing : ∀ pair ∈ pairs, pair.1 < documents)
    (small : documents ≤ 2 ^ 32) : (ofPairs name indexing pairs).Content documents := by
  obtain ⟨postings, values⟩ := ofPairs_spec name indexing pairs
  obtain ⟨ascending, members⟩ := ValueSet.ofList_spec (pairs.map (·.2))
  constructor
  · rw [values]
    exact ascending
  · intro value
    rw [values, members, postings]
    simp
  · rw [postings]
    exact existing
  · exact small

/-- Every number that an index stores fits the 32 bits that it is stored in. -/
structure Storable (c : Column) (documents : Nat) (kind : DictionaryKind)
    (encoding : PostingsEncoding) : Prop where
  small : documents ≤ 2 ^ 32
  dictionary : Dictionary.Fits c.values kind
  postings : ∀ b, c.collect documents = .ok b → b.Fits encoding

def decodeFilter (name : String) (documents : Nat) : Decoder FilterIndex := do
  let dictionary ← Dictionary.decode
  let postings ← Postings.decode documents
  return { name, dictionary, postings }

/-- What was recorded is written in each of the forms, and read back from it. -/
theorem indexForm_reads (content : c.Content documents)
    (uniform : kind = .fixed → ∀ v ∈ c.values.values, ∀ w ∈ c.values.values, v.length = w.length)
    (storable : c.Storable documents kind encoding) (name : String) :
    ∃ bytes, c.indexForm documents kind (some encoding) = .ok bytes ∧
      Decoder.Reads (decodeFilter name documents) bytes fun index =>
        index.Files documents c.values.values (c.carriers documents) := by
  obtain ⟨b, collect, collected⟩ := collect_eq_ok content
  have small : b.documents ≤ 2 ^ 32 := collected.documents ▸ content.small
  have fits := storable.postings b collect
  obtain ⟨stored, formed⟩ := PostingsBuilder.form_exists small encoding
  have keys : b.keys < 2 ^ 32 := by
    cases encoding with
    | list => exact fits.1
    | bits => exact fits
  have writable : Dictionary.Writable c.values kind := by
    constructor
    · exact content.ascending
    · intro fixed
      exact ValueSet.uniform_of_alike (uniform fixed)
    · exact storable.dictionary
  have reads := PostingsBuilder.form_reads small (Collected.below content collected) fits formed
  rw [collected.documents, bucket_eq_carriers content collected, collected.keys] at reads
  rw [collected.keys] at keys
  refine ⟨c.values.form kind ++ stored, ?_, ?_⟩
  · simp only [indexForm, collect, ok_bind, Option.elim_some, formed, lift_ok, pure_eq_ok]
  · unfold decodeFilter
    apply (Dictionary.decode_reads writable).bind
    rintro dictionary ⟨_, holds⟩
    apply reads.bind_last
    rintro postings ⟨same, lists⟩
    apply Decoder.Reads.pure
    constructor
    · exact holds
    · exact Nat.lt_trans keys (by decide)
    · exact lists
    · exact same

/-- Any values of existing documents can be written with each form of dictionary and of postings,
and read back up to the end of what was written. Then each look-up adds the documents that have
a value which passes to whatever the set holds, tells whether there are any, and leaves the set
as it was if there are none. -/
theorem stored_unites (existing : ∀ pair ∈ pairs, pair.1 < documents)
    (alike : kind = .fixed → ∀ a ∈ pairs, ∀ b ∈ pairs, a.2.length = b.2.length)
    (storable : (ofPairs name indexing pairs).Storable documents kind encoding) :
    ∃ bytes, (ofPairs name indexing pairs).indexForm documents kind (some encoding) = .ok bytes ∧
      ∀ (v : View) (tail : Bytes), v.rest = bytes ++ tail →
        ∃ index w, (decodeFilter name documents).runOn v = (.ok index, w) ∧ w.rest = tail ∧
          ∀ dest : ArraySet, dest.Over documents → ∀ test : ValueTest,
            ∃ found united, index.unite dest test = .ok (found, united) ∧
              united.size = dest.size ∧ united.Trimmed ∧
              (∀ i, i ∈ united ↔
                i ∈ dest ∨ ∃ value, (i, value) ∈ pairs ∧ test.holds value = true) ∧
              (found = true ↔ ∃ i value, (i, value) ∈ pairs ∧ test.holds value = true) ∧
              (found = false → united = dest) := by
  have content := @content_ofPairs pairs documents name indexing existing storable.small
  obtain ⟨postings, values⟩ := ofPairs_spec name indexing pairs
  have uniform : kind = .fixed → ∀ v ∈ (ofPairs name indexing pairs).values.values,
      ∀ w ∈ (ofPairs name indexing pairs).values.values, v.length = w.length := by
    intro fixed v first w second
    obtain ⟨i, posted⟩ := (content.values v).mp first
    obtain ⟨j, also⟩ := (content.values w).mp second
    rw [postings] at posted also
    exact alike fixed _ posted _ also
  obtain ⟨bytes, formed, reads⟩ := indexForm_reads content uniform storable name
  refine ⟨bytes, formed, ?_⟩
  intro v tail here
  obtain ⟨index, w, ran, left, files⟩ := reads.run_eq here
  refine ⟨index, w, ran, left, ?_⟩
  intro dest sized test
  obtain ⟨⟨found, united⟩, answered, added⟩ := files.answers.unite test dest sized
  rw [carries_carriers content] at added
  have passes : ∀ i, (ofPairs name indexing pairs).Passes test i ↔
      ∃ value, (i, value) ∈ pairs ∧ test.holds value = true := by
    intro i
    rw [Passes, postings]
  have added := added.congr passes
  exact ⟨found, united, answered, added.size, added.trimmed, added.members, added.found trivial,
    added.kept⟩

def sharedPairs : List (Nat × Bytes) :=
  [(0, [98]), (1, [100]), (2, [98]), (3, [102]), (1, [98]), (4, [104])]

theorem stored_unites_shared : ∃ bytes index w dest united,
    (ofPairs "f" ⟨.full, .varied⟩ sharedPairs).indexForm 5 .fixed (some .bits) = .ok bytes ∧
      (decodeFilter "f" 5).runOn (View.ofBytes bytes) = (.ok index, w) ∧ w.rest = [] ∧
      (∀ i, i ∈ dest ↔ i = 4) ∧
      index.unite dest (.between [98] false [102] true) = .ok (true, united) ∧
      (∀ i, i ∈ united ↔ i = 4 ∨ i = 1 ∨ i = 3) ∧
      index.unite dest (.between [102] true [98] true) = .ok (false, dest) := by
  obtain ⟨bytes, formed, reads⟩ := @stored_unites sharedPairs 5 .fixed .bits "f" ⟨.full, .varied⟩
    (by decide) (fun _ => by decide)
    ⟨by decide, by decide +kernel, fun b collected => by
      cases collected
      decide +kernel⟩
  obtain ⟨index, w, ran, left, unites⟩ := reads (View.ofBytes bytes) []
    (by rw [View.rest_eq_bytes rfl, View.bytes_ofBytes, List.append_nil])
  obtain ⟨dest, _, size, trimmed, same⟩ :=
    @ArraySet.foldlM_insert (.empty 5) [4] (by decide)
  have sized : dest.Over 5 := ⟨size, trimmed (ArraySet.trimmed_empty 5)⟩
  have all : ∀ test : ValueTest, (∃ i value, (i, value) ∈ sharedPairs ∧ test.holds value = true) ↔
      ∃ pair ∈ sharedPairs, test.holds pair.2 = true := by
    intro test
    rw [Prod.exists]
  have each : ∀ (test : ValueTest) (i : Nat),
      (∃ value, (i, value) ∈ sharedPairs ∧ test.holds value = true) ↔
        i ∈ (sharedPairs.filter fun pair => test.holds pair.2).map (·.1) := by
    intro test i
    simp
  obtain ⟨found, united, answered, _, _, members, some, _⟩ :=
    unites dest sized (.between [98] false [102] true)
  obtain ⟨none, kept, inverted, _, _, _, never, unchanged⟩ :=
    unites dest sized (.between [102] true [98] true)
  obtain rfl : found = true := some.mpr ((all _).mpr (by decide))
  obtain rfl : none = false := Bool.eq_false_iff.mpr fun claimed =>
    absurd ((all _).mp (never.mp claimed)) (by decide)
  obtain rfl := unchanged rfl
  refine ⟨bytes, index, w, _, united, formed, ran, left, ?_, answered, ?_, inverted⟩
  · intro i
    simp [same, ArraySet.not_mem_empty]
  · intro i
    have passing : (sharedPairs.filter fun pair =>
        ValueTest.holds (.between [98] false [102] true) pair.2).map (·.1) = [1, 3] := by decide
    rw [members, each, passing, same]
    simp [ArraySet.not_mem_empty]

end DocStore.Column
