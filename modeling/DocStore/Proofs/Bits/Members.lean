import DocStore.Proofs.Bits.Sets

/-! What a stored set is made of and how its members are met: sets that are filled at once or from
a list, the operations with another set that leave numbers out, and the search for the lowest
member from a number on, which meets all members when it goes on behind each of them. -/
namespace DocStore

namespace ArraySet

variable {s u : ArraySet} {t : DocSet} {i start size : Nat}

theorem mem_fill : i ∈ s.fill ↔ i < s.size := by
  rw [fill, mem_trim, mem_mapWords, Word.hasBit_allBits (Nat.mod_lt _ (by decide))]
  exact and_iff_left rfl

theorem trimmed_fill (s : ArraySet) : s.fill.Trimmed := trimmed_trim _

/-- Removing the members of another set. -/
theorem sdiff_eq (trimmed : s.Trimmed) (legible : 0 < s.size → t.Legible)
    (small : s.size + 63 < sizeLimit) :
    ∃ u, s.sdiff t = .ok u ∧ u.size = s.size ∧ u.Trimmed ∧
      ∀ i, i ∈ u ↔ i ∈ s ∧ ¬ t.contains i = true := by
  obtain ⟨u, combined, size, words⟩ :=
    combine_eq (f := fun mine theirs => mine &&& ~~~ theirs) legible small
  refine ⟨u, combined, size, ?_, ?_⟩
  · apply trimmed_of_bits
    intro i past here
    rw [size] at past here
    obtain ⟨theirs, _, word⟩ := words (i / 64) here
    rw [word, Word.hasBit_and, trimmed i past, Bool.false_and]
  · intro i
    rw [mem_iff, mem_iff, size, and_assoc]
    apply and_congr_right
    intro inside
    obtain ⟨theirs, bits, word⟩ := words (i / 64) (div_lt_wordCount inside)
    have low : i % 64 < 64 := Nat.mod_lt _ (by decide)
    rw [word, Word.hasBit_and, Word.hasBit_not low, bits _ low, Nat.div_add_mod', Bool.and_eq_true,
      Bool.not_eq_true', Bool.not_eq_true]

/-- Taking over the members of another set. -/
theorem assign_eq (legible : 0 < s.size → t.Legible) (small : s.size + 63 < sizeLimit) :
    ∃ u, s.assign t = .ok u ∧ u.size = s.size ∧ u.Trimmed ∧
      ∀ i, i ∈ u ↔ i < s.size ∧ t.contains i = true := by
  obtain ⟨u, combined, size, words⟩ := combine_eq (f := fun _ theirs => theirs) legible small
  refine ⟨u.trim, by rw [assign, combined]; rfl, size, trimmed_trim u, ?_⟩
  intro i
  rw [mem_trim, mem_iff, size]
  apply and_congr_right
  intro inside
  obtain ⟨theirs, bits, word⟩ := words (i / 64) (div_lt_wordCount inside)
  rw [word, bits _ (Nat.mod_lt _ (by decide)), Nat.div_add_mod']

/-- A full set of which the words cannot be counted stops every combination that reads a word. -/
theorem combine_uncountable {f : UInt64 → UInt64 → UInt64} (large : sizeLimit ≤ size + 63)
    (some : 0 < s.size) : s.combine f (.all size) = .error .overflow := by
  have each : ∀ index, (DocSet.all size).word index = .error .overflow := by
    intro index
    rw [DocSet.word, wordsFor, addSizes, if_neg (Nat.not_lt.mpr large)]
    rfl
  have first : 0 ∈ List.range s.words.size := by
    rw [List.mem_range, s.words_size]
    exact @div_lt_wordCount 0 s.size some
  rw [combine, DocSet.firstWords, Array.mapM_eq_mapM_toList, Array.toList_range,
    mapM_eq_error (fun index _ => Or.inr (each index)) ⟨0, first, each 0⟩]
  rfl

theorem allocate_eq_ok (made : allocate size = .ok s) :
    size + 63 < sizeLimit ∧ s = empty size := by
  by_cases small : size + 63 < sizeLimit
  · rw [allocate_eq small] at made
    exact ⟨small, (Except.ok.inj made).symm⟩
  · rw [allocate, wordsFor, addSizes, if_neg small] at made
    cases made

/-- Adding the listed numbers, as far as they are below the size. -/
theorem foldl_insert (indexes : List Nat) (s : ArraySet) (trimmed : s.Trimmed) :
    ∃ u, indexes.foldl (fun s index => (s.insert index).toOption.getD s) s = u ∧
      u.size = s.size ∧ u.Trimmed ∧ ∀ i, i ∈ u ↔ i ∈ s ∨ i ∈ indexes ∧ i < s.size := by
  induction indexes generalizing s with
  | nil => exact ⟨s, rfl, rfl, trimmed, fun i => by simp⟩
  | cons first rest ih =>
    by_cases inside : first < s.size
    · have inserted := insert_eq inside
      have size := size_insert inserted
      obtain ⟨u, filled, same, trims, members⟩ := ih _ (trimmed_insert inserted trimmed)
      refine ⟨u, by rw [List.foldl_cons, inserted]; exact filled, same.trans size, trims, ?_⟩
      intro i
      rw [members, mem_insert inserted, size, List.mem_cons]
      grind
    · have refused : s.insert first = .error (.bitOutOfRange first s.size) := if_neg inside
      obtain ⟨u, filled, same, trims, members⟩ := ih s trimmed
      refine ⟨u, by rw [List.foldl_cons, refused]; exact filled, same, trims, ?_⟩
      intro i
      rw [members, List.mem_cons]
      grind

def BitAt (k : Nat) (words : List UInt64) (i : Nat) : Prop :=
  k ≤ i / 64 ∧ Word.hasBit (words.getD (i / 64 - k) 0) (i % 64) = true

theorem bitAt_cons {k : Nat} {word : UInt64} {rest : List UInt64} :
    BitAt k (word :: rest) i ↔
      i / 64 = k ∧ Word.hasBit word (i % 64) = true ∨ BitAt (k + 1) rest i := by
  unfold BitAt
  rcases Nat.lt_trichotomy (i / 64) k with below | here | above
  · simp only [Nat.not_le.mpr below, Nat.ne_of_lt below, Nat.not_le.mpr (Nat.lt_succ_of_lt below),
      false_and, or_self]
  · simp only [here, Nat.sub_self, List.getD_cons_zero, Nat.le_refl, true_and,
      Nat.not_succ_le_self, false_and, or_false]
  · rw [show i / 64 - k = i / 64 - (k + 1) + 1 by omega, List.getD_cons_succ]
    have later : k ≤ i / 64 ∧ k + 1 ≤ i / 64 ∧ i / 64 ≠ k := by omega
    simp [later]

/-- The first bit in the first word that has one is the lowest. -/
theorem firstMember?_least {k least : Nat} {words : List UInt64}
    (found : firstMember? k words = some least) :
    BitAt k words least ∧ ∀ i, BitAt k words i → least ≤ i := by
  induction words generalizing k with
  | nil => cases found
  | cons word rest ih =>
    rw [firstMember?] at found
    cases lowest : Word.lowest? word with
    | none =>
      rw [lowest] at found
      obtain ⟨set, below⟩ := ih found
      refine ⟨bitAt_cons.mpr (Or.inr set), ?_⟩
      intro i other
      rcases bitAt_cons.mp other with ⟨_, bit⟩ | later
      · rw [Word.lowest?_eq_none.mp lowest, Word.hasBit_zero] at bit
        contradiction
      · exact below i later
    | some bit =>
      rw [lowest] at found
      obtain rfl := Option.some.inj found
      rw [Word.lowest?_eq_find?, List.find?_range_eq_some] at lowest
      obtain ⟨set, inside, lower⟩ := lowest
      have low := List.mem_range.mp inside
      have split : (k * 64 + bit) / 64 = k ∧ (k * 64 + bit) % 64 = bit := by omega
      refine ⟨bitAt_cons.mpr (Or.inl ⟨split.1, by rw [split.2]; exact set⟩), ?_⟩
      intro i other
      rcases bitAt_cons.mp other with ⟨here, taken⟩ | later
      · have behind : bit ≤ i % 64 := by
          apply Nat.le_of_not_lt
          intro before
          have clear := lower _ before
          simp [taken] at clear
        omega
      · have := later.1
        omega

theorem firstMember?_exists {k : Nat} {words : List UInt64} (set : BitAt k words i) :
    ∃ least, firstMember? k words = some least := by
  cases found : firstMember? k words with
  | some least => exact ⟨least, rfl⟩
  | none =>
    have zeros := firstMember?_eq_none.mp found
    have zero : words.getD (i / 64 - k) 0 = 0 := by
      rw [List.getD_eq_getElem?_getD]
      cases known : words[i / 64 - k]? with
      | none => rfl
      | some word => exact zeros word (List.mem_of_getElem? known)
    have bit := set.2
    rw [zero, Word.hasBit_zero] at bit
    contradiction

theorem getD_words (s : ArraySet) (index : Nat) : s.words.toList.getD index 0 = s.word index := by
  rw [word, Array.getD_eq_getD_getElem?, List.getD_eq_getElem?_getD, Array.getElem?_toList]

/-- The bits that the search from a number on looks at. -/
theorem next?_form (below : start < s.size) :
    ∃ words, s.next? start = firstMember? (start / 64) words ∧
      ∀ i, BitAt (start / 64) words i ↔
        start ≤ i ∧ Word.hasBit (s.word (i / 64)) (i % 64) = true := by
  have inside : start / 64 < s.words.toList.length := by
    rw [Array.length_toList, s.words_size]
    exact div_lt_wordCount below
  have first := List.drop_eq_getElem_cons inside
  generalize List.drop (start / 64 + 1) s.words.toList = rest at first
  generalize s.words.toList[start / 64] = word at first
  refine ⟨(word &&& Word.bitsFrom start) :: rest, by rw [next?, if_pos below, first], ?_⟩
  intro i
  have whole : BitAt (start / 64) (word :: rest) i ↔
      start / 64 ≤ i / 64 ∧ Word.hasBit (s.word (i / 64)) (i % 64) = true := by
    rw [← first, BitAt]
    apply and_congr_right
    intro after
    rw [List.getD_eq_getElem?_getD, List.getElem?_drop, Nat.add_sub_cancel' after,
      ← List.getD_eq_getElem?_getD, getD_words]
  rw [bitAt_cons, Word.hasBit_and, Word.hasBit_bitsFrom (Nat.mod_lt _ (by decide)),
    Bool.and_eq_true, decide_eq_true_eq]
  rw [bitAt_cons] at whole
  constructor
  · rintro (⟨here, bit, late⟩ | later)
    · exact ⟨by omega, (whole.mp (Or.inl ⟨here, bit⟩)).2⟩
    · have := later.1
      exact ⟨by omega, (whole.mp (Or.inr later)).2⟩
  · rintro ⟨late, bit⟩
    rcases whole.mpr ⟨Nat.div_le_div_right late, bit⟩ with ⟨here, first⟩ | later
    · exact Or.inl ⟨here, first, by omega⟩
    · exact Or.inr later

theorem next?_eq_some (trimmed : s.Trimmed) :
    s.next? start = some i ↔ i ∈ s ∧ start ≤ i ∧ ∀ j ∈ s, start ≤ j → i ≤ j := by
  by_cases below : start < s.size
  · obtain ⟨words, search, bits⟩ := next?_form below
    rw [search]
    constructor
    · intro found
      obtain ⟨set, least⟩ := firstMember?_least found
      obtain ⟨late, bit⟩ := (bits i).mp set
      refine ⟨mem_iff.mpr ⟨?_, bit⟩, late, ?_⟩
      · apply Nat.lt_of_not_le
        intro past
        simp [trimmed i past] at bit
      · intro j member after
        exact least j ((bits j).mpr ⟨after, (mem_iff.mp member).2⟩)
    · rintro ⟨member, late, least⟩
      have set := (bits i).mpr ⟨late, (mem_iff.mp member).2⟩
      obtain ⟨other, found⟩ := firstMember?_exists set
      obtain ⟨there, lower⟩ := firstMember?_least found
      obtain ⟨after, bit⟩ := (bits other).mp there
      have before := lower i set
      have : i ≤ other :=
        least other (mem_iff.mpr ⟨Nat.lt_of_le_of_lt before (lt_of_mem member), bit⟩) after
      rw [found, Nat.le_antisymm before this]
  · constructor
    · intro found
      rw [next?, if_neg below] at found
      cases found
    · rintro ⟨member, late, _⟩
      exact absurd (Nat.lt_of_le_of_lt late (lt_of_mem member)) below

theorem next?_eq_none (trimmed : s.Trimmed) : s.next? start = none ↔ ∀ i ∈ s, i < start := by
  constructor
  · intro none i member
    by_cases late : start ≤ i
    · have below : start < s.size := Nat.lt_of_le_of_lt late (lt_of_mem member)
      obtain ⟨words, search, bits⟩ := next?_form below
      obtain ⟨least, found⟩ := firstMember?_exists ((bits i).mpr ⟨late, (mem_iff.mp member).2⟩)
      rw [search, found] at none
      cases none
    · exact Nat.lt_of_not_le late
  · intro before
    cases found : s.next? start with
    | none => rfl
    | some i =>
      obtain ⟨member, late, _⟩ := (next?_eq_some trimmed).mp found
      exact absurd (before i member) (Nat.not_lt.mpr late)

/-- A search finds nothing before its start. -/
theorem next?_bounds (found : s.next? start = some i) : start < s.size ∧ start ≤ i := by
  by_cases below : start < s.size
  · obtain ⟨words, search, bits⟩ := next?_form below
    rw [search] at found
    exact ⟨below, ((bits i).mp (firstMember?_least found).1).1⟩
  · rw [next?, if_neg below] at found
    cases found

/-- The members from a number on, each found from behind the one before. -/
def membersFrom (s : ArraySet) (start : Nat) : List Nat :=
  match _found : s.next? start with
  | none => []
  | some i => i :: s.membersFrom (i + 1)
termination_by s.size - start
decreasing_by
  have := next?_bounds _found
  omega

/-- Searching on behind each member meets them all, in ascending order. -/
theorem membersFrom_eq (trimmed : s.Trimmed) (start : Nat) :
    (s.membersFrom start).Pairwise (· < ·) ∧ ∀ i, i ∈ s.membersFrom start ↔ i ∈ s ∧ start ≤ i := by
  induction start using membersFrom.induct s with
  | case1 start none =>
    rw [membersFrom, none]
    refine ⟨List.Pairwise.nil, ?_⟩
    intro i
    simpa using (next?_eq_none trimmed).mp none i
  | case2 start first found ih =>
    obtain ⟨ascending, members⟩ := ih
    obtain ⟨member, late, least⟩ := (next?_eq_some trimmed).mp found
    rw [membersFrom, found]
    refine ⟨List.pairwise_cons.mpr ⟨?_, ascending⟩, ?_⟩
    · intro i later
      exact ((members i).mp later).2
    · intro i
      rw [List.mem_cons, members]
      constructor
      · rintro (rfl | ⟨other, behind⟩)
        · exact ⟨member, late⟩
        · exact ⟨other, by omega⟩
      · rintro ⟨other, after⟩
        have := least i other after
        rcases Nat.eq_or_lt_of_le this with same | behind
        · exact Or.inl same.symm
        · exact Or.inr ⟨other, behind⟩

theorem membersFrom_zero (trimmed : s.Trimmed) : s.membersFrom 0 = s.toList := by
  obtain ⟨ascending, members⟩ := membersFrom_eq trimmed 0
  refine eq_of_ascending ascending (toList_ascending trimmed) fun i => ?_
  rw [members, mem_toList trimmed]
  exact and_iff_left (Nat.zero_le i)

end ArraySet

end DocStore
