import DocStore.Proofs.Dictionary.Decoding

/-! The stored forms are one dictionary. Whatever values were added, and in whatever order, each
form answers what scans of the sorted list answer, so that no caller can tell the forms apart. -/
namespace DocStore

/-- The first rank of `[start, stop)` whose value is not below `value`, or is above it if
`skipEqual`, looked for rank by rank. Without one it is the end of the window. -/
def firstNotBelow (values : List Bytes) (value : Bytes) (skipEqual : Bool) (start stop : Nat) : Nat :=
  ((List.range' start (stop - start)).find? fun rank =>
    values[rank]?.any fun element => !ValueTest.below skipEqual element value).getD (max start stop)

variable {values : List Bytes}

theorem firstNotBelow_eq (ascending : values.Pairwise (· < ·)) (value : Bytes) (skipEqual : Bool)
    (start : Nat) {stop : Nat} (inside : stop ≤ values.length) :
    firstNotBelow values value skipEqual start stop =
      clamp start stop (values.countP (ValueTest.below skipEqual · value)) := by
  generalize counted : values.countP (ValueTest.below skipEqual · value) = point
  -- the values below come first, so that the scan stops at their number
  have reached : ∀ rank < stop, (values[rank]?.any fun element =>
      !ValueTest.below skipEqual element value) = !decide (rank < point) := by
    intro rank within
    have known := @passes_iff_lt_countP (ValueTest.below skipEqual · value) _ ascending
      (fun a b => ValueTest.below_of_lt) rank (Nat.lt_of_lt_of_le within inside)
    rw [counted] at known
    rw [getElem?_any_eq (Nat.lt_of_lt_of_le within inside), known]
  unfold firstNotBelow
  cases scanned : (List.range' start (stop - start)).find? fun rank =>
      values[rank]?.any fun element => !ValueTest.below skipEqual element value with
  | none =>
    have all := List.find?_range'_eq_none.mp scanned
    rw [Option.getD_none]
    by_cases more : start < stop
    · have last := all (stop - 1) (by omega) (by omega)
      rw [reached (stop - 1) (by omega)] at last
      simp only [Bool.not_not, decide_eq_true_eq] at last
      unfold clamp
      omega
    · unfold clamp
      omega
  | some rank =>
    obtain ⟨passes, member, before⟩ := List.find?_range'_eq_some.mp scanned
    obtain ⟨lower, upper⟩ := List.mem_range'_1.mp member
    rw [reached rank (by omega)] at passes
    simp only [Bool.not_eq_true', decide_eq_false_iff_not] at passes
    rw [Option.getD_some]
    by_cases first : rank = start
    · unfold clamp
      omega
    · have earlier := before (rank - 1) (by omega) (by omega)
      rw [reached (rank - 1) (by omega)] at earlier
      simp only [Bool.not_not, decide_eq_true_eq] at earlier
      unfold clamp
      omega

namespace Dictionary

/-- A dictionary answers what scans of a list of values answer, in every window that ends within
the list and within every bound. -/
structure Scans (d : Dictionary) (values : List Bytes) : Prop where
  size : d.size = values.length
  get : ∀ (rank : Nat) (inside : rank < values.length), d.get rank = .ok values[rank]
  rank? : ∀ value, d.rank? value = .ok (values.idxOf? value)
  search : ∀ value skipEqual start stop, stop ≤ values.length →
    d.search value skipEqual start stop = .ok (firstNotBelow values value skipEqual start stop)
  lowestAbove : ∀ value orEqual last,
    d.lowestAbove value orEqual last = .ok (firstAbove values value orEqual last)
  highestBelow : ∀ value orEqual first,
    d.highestBelow value orEqual first = .ok (lastBelow values value orEqual first)

theorem Holds.scans {d : Dictionary} (holds : d.Holds values) : d.Scans values where
  size := holds.size
  get := holds.get
  rank? := holds.rank?
  search value skipEqual start stop inside := by
    rw [holds.search value skipEqual start stop inside,
      firstNotBelow_eq holds.ascending value skipEqual start inside]
  lowestAbove := holds.lowestAbove_eq
  highestBelow := holds.highestBelow_eq

/-- The values that were added are read back from each of the stored forms, up to the end of the
form, as a dictionary that answers what scans of the sorted list of the distinct values answer. -/
theorem forms_scan (added : List Bytes) (kind : DictionaryKind)
    (uniform : kind = .fixed →
      (ValueSet.ofList added).uniformLength?.isSome ∨ (ValueSet.ofList added).isEmpty)
    (short : ((ValueSet.ofList added).form kind).length < 2 ^ 32) {v : View} {tail : Bytes}
    (here : v.rest = (ValueSet.ofList added).form kind ++ tail) :
    (ValueSet.ofList added).values.Pairwise (· < ·) ∧
      (∀ value, value ∈ (ValueSet.ofList added).values ↔ value ∈ added) ∧
      ∃ d w, decode.runOn v = (.ok d, w) ∧ w.rest = tail ∧ d.kind = kind ∧
        d.Scans (ValueSet.ofList added).values ∧
        ∀ value, d.rank? value = .ok ((ValueSet.ofList added).rank? value) := by
  obtain ⟨ascending, members⟩ := ValueSet.ofList_spec added
  have writable : Writable (ValueSet.ofList added) kind := by
    apply writable_of_short ascending
    · intro fixed
      exact ValueSet.uniform_of_length (uniform fixed)
    · exact short
  obtain ⟨d, w, ran, left, same, holds⟩ := (decode_reads writable).run_eq here
  exact ⟨ascending, members, d, w, ran, left, same, holds.scans, holds.rank?⟩

def nestedValues : List Bytes := [[255], [1, 0], [], [1, 0, 255], [1], [1, 0], [0], [1, 0, 0]]

def pairedValues : List Bytes := [[255, 0], [0, 255], [255, 0], [0, 0]]

theorem forms_scan_nested :
    (∃ d w, decode.runOn (View.ofBytes (ValueSet.ofList nestedValues).trieForm) = (.ok d, w) ∧
      w.rest = [] ∧ d.rank? [1, 0] = .ok (some 3) ∧ d.rank? [1, 0, 1] = .ok none ∧
      d.search [1, 0, 7] false 1 7 = .ok 5 ∧ d.highestBelow [1, 0, 255] false 2 = .ok (some 4)) ∧
    ∃ d w, decode.runOn (View.ofBytes ((ValueSet.ofList pairedValues).fixedForm ++ [9])) =
        (.ok d, w) ∧
      w.rest = [9] ∧ d.get 1 = .ok [0, 255] ∧ d.lowestAbove [0, 255] false 5 = .ok (some 2) := by
  have whole : ∀ bytes : Bytes, (View.ofBytes bytes).rest = bytes := fun bytes => by
    rw [View.rest_eq_bytes rfl, View.bytes_ofBytes]
  have values : (ValueSet.ofList nestedValues).values =
      [[], [0], [1], [1, 0], [1, 0, 0], [1, 0, 255], [255]] := by decide +kernel
  -- `ofSorted` recurses on the weight of its values, so the kernel cannot run it.
  have tree : Trie.ofSorted [[], [0], [1], [1, 0], [1, 0, 0], [1, 0, 255], [255]] =
      .node [] true (.cons 0 (.node [] true .nil) (.cons 1 (.node [] true (.cons 0 (.node [] true
        (.cons 0 (.node [] true .nil) (.cons 255 (.node [] true .nil) .nil))) .nil))
        (.cons 255 (.node [] true .nil) .nil))) := by
    simp [Trie.ofSorted, Trie.branchesOf, Trie.takeBranch, Trie.sharedStart, Trie.dropStarts,
      Trie.nonEmpty, Bytes.commonStart]
  have short : ((ValueSet.ofList nestedValues).form .trie).length < 2 ^ 32 := by
    rw [ValueSet.form, length_trieForm, nodesOf, values, tree]
    decide +kernel
  constructor
  · obtain ⟨_, _, d, w, ran, left, _, scans, _⟩ := @forms_scan nestedValues .trie
      (by intro same; contradiction) short
      (View.ofBytes (ValueSet.ofList nestedValues).trieForm) []
      (by rw [whole, List.append_nil]; rfl)
    refine ⟨d, w, ran, left, ?_, ?_, ?_, ?_⟩
    · rw [scans.rank?]
      decide +kernel
    · rw [scans.rank?]
      decide +kernel
    · rw [scans.search _ _ _ _ (by decide +kernel)]
      decide +kernel
    · rw [scans.highestBelow]
      decide +kernel
  · obtain ⟨_, _, d, w, ran, left, _, scans, _⟩ := @forms_scan pairedValues .fixed
      (fun _ => by decide +kernel) (by decide +kernel)
      (View.ofBytes ((ValueSet.ofList pairedValues).fixedForm ++ [9])) [9] (whole _)
    refine ⟨d, w, ran, left, ?_, ?_⟩
    · rw [scans.get 1 (by decide +kernel)]
      decide +kernel
    · rw [scans.lowestAbove]
      decide +kernel

end Dictionary

end DocStore
