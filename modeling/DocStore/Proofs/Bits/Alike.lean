import DocStore.Proofs.Bits.Operations

/-! Sets of documents by what they answer. Size and members determine every answer, whether words
are stored or made up from their index. So the empty and the full set that need no storage stand
for stored sets, up to the last index of 64 bits, where the full one cannot count on. -/
namespace DocStore

/-- An operation that takes another set on the right combines the words first. -/
theorem ArraySet.Op.run_combine (s : ArraySet) : ∀ op ∈ [inter, union, sdiff, assign],
    ∃ f finish, ∀ t, (op t).run s = s.settle ((s.combine f t).map finish) := by
  simp only [List.forall_mem_cons]
  refine ⟨?inter, ?union, ?sdiff, ?assign, nofun⟩
  case inter =>
    refine ⟨(· &&& ·), fun both => (some both.anyBit, both), fun t => ?_⟩
    rw [run, ArraySet.inter]
    cases s.combine (· &&& ·) t <;> rfl
  case union =>
    refine ⟨(· ||| ·), fun both => (none, both.trim), fun t => ?_⟩
    rw [run, ArraySet.union]
    cases s.combine (· ||| ·) t <;> rfl
  case sdiff =>
    exact ⟨fun mine theirs => mine &&& ~~~ theirs, fun both => (none, both), fun _ => rfl⟩
  case assign =>
    refine ⟨fun _ theirs => theirs, fun both => (none, both.trim), fun t => ?_⟩
    rw [run, ArraySet.assign]
    cases s.combine (fun _ theirs => theirs) t <;> rfl

namespace DocSet

variable {t u : DocSet} {s : ArraySet} {index start i size : Nat}

/-- Two sets give one answer to every question, and have the same words as far as the index after
that of a word fits 64 bits. -/
structure Alike (t u : DocSet) : Prop where
  size : t.size = u.size
  cardinality : t.cardinality = u.cardinality
  isEmpty : t.isEmpty = u.isEmpty
  words : ∃ count, t.words = .ok count ∧ u.words = .ok count
  contains : ∀ index, t.contains index = u.contains index
  next : ∀ start, t.next? start = u.next? start
  toList : t.toList = u.toList
  word : ∀ index, index + 1 < sizeLimit → ∃ word, t.word index = .ok word ∧ u.word index = .ok word

theorem words_eq (small : t.size + 63 < sizeLimit) : t.words = .ok (wordCount t.size) := by
  cases t with
  | none size => exact wordsFor_eq small
  | all size => exact wordsFor_eq small
  | stored s => exact congrArg Except.ok s.words_size

theorem next?_eq_some (legible : t.Legible) : t.next? start = some i ↔
    t.contains i = true ∧ start ≤ i ∧ ∀ j, t.contains j = true → start ≤ j → i ≤ j := by
  cases t with
  | none size => simp [next?, contains]
  | all size =>
    simp only [next?, contains, decide_eq_true_eq, Option.ite_none_right_eq_some,
      Option.some.injEq]
    constructor
    · rintro ⟨inside, rfl⟩
      exact ⟨inside, Nat.le_refl _, fun _ _ late => late⟩
    · rintro ⟨inside, late, least⟩
      have first : start < size := Nat.lt_of_le_of_lt late inside
      exact ⟨first, Nat.le_antisymm late (least start first (Nat.le_refl _))⟩
  | stored s => exact ArraySet.next?_eq_some (legible.trimmed s rfl)

/-- Sets of one size with the same members are alike. -/
theorem alike_of_contains (left : t.Readable) (right : u.Readable) (size : t.size = u.size)
    (same : ∀ i, t.contains i = u.contains i) : t.Alike u := by
  have listed : t.toList = u.toList := by
    rw [toList_eq left.legible, toList_eq right.legible, size, funext same]
  constructor
  case size => exact size
  case cardinality => rw [cardinality_eq, cardinality_eq, listed]
  case isEmpty => rw [Bool.eq_iff_iff, isEmpty_iff left.legible, isEmpty_iff right.legible, listed]
  case words => exact ⟨_, words_eq left.small, size ▸ words_eq right.small⟩
  case contains => exact same
  case next =>
    intro start
    apply Option.ext
    intro i
    simp only [next?_eq_some left.legible, next?_eq_some right.legible, same]
  case toList => exact listed
  case word =>
    intro index small
    obtain ⟨mine, known, bits⟩ := word_eq left.legible small
    obtain ⟨theirs, known', bits'⟩ := word_eq right.legible small
    have equal : mine = theirs := by
      apply Word.eq_of_hasBit
      intro bit low
      rw [bits bit low, bits' bit low, same]
    exact ⟨mine, known, equal ▸ known'⟩

theorem Alike.firstWords {count : Nat} (alike : t.Alike u) (small : count < sizeLimit) :
    ∃ words, t.firstWords count = .ok words ∧ u.firstWords count = .ok words := by
  have each : ∀ index < count, ∃ word, t.word index = .ok word ∧ u.word index = .ok word := by
    intro index inside
    exact alike.word index (by omega)
  choose! word mine theirs using each
  exact ⟨_, firstWords_of_words mine, firstWords_of_words theirs⟩

/-- A stored set is combined with either of two alike sets to one set. -/
theorem Alike.combine (alike : t.Alike u) (f : UInt64 → UInt64 → UInt64)
    (small : s.size + 63 < sizeLimit) : ∃ both, s.combine f t = .ok both ∧ s.combine f u = .ok both := by
  obtain ⟨words, mine, theirs⟩ := alike.firstWords (ArraySet.size_words_lt small)
  exact ⟨_, by rw [ArraySet.combine, mine]; rfl, by rw [ArraySet.combine, theirs]; rfl⟩

/-- Operations that take another set on the right do the same with either of two alike sets. -/
theorem Alike.run (alike : t.Alike u) (small : s.size + 63 < sizeLimit) :
    ∀ op ∈ [ArraySet.Op.inter, .union, .sdiff, .assign], ∃ answer after,
      (op t).run s = (.ok answer, after) ∧ (op u).run s = (.ok answer, after) := by
  intro op among
  obtain ⟨f, finish, form⟩ := ArraySet.Op.run_combine s op among
  obtain ⟨both, mine, theirs⟩ := alike.combine f small
  refine ⟨(finish both).1, (finish both).2, ?_, ?_⟩
  · rw [form, mine]
    rfl
  · rw [form, theirs]
    rfl

inductive Seeds : DocSet → ArraySet → Prop where
  | none {size : Nat} {s : ArraySet} (made : ArraySet.allocate size = .ok s) : Seeds (.none size) s
  | all {size : Nat} {s : ArraySet} (made : ArraySet.full size = .ok s) : Seeds (.all size) s

/-- What a stored set is made for can be read as it can. -/
theorem Seeds.readable (seeds : t.Seeds s) : t.Readable ∧ (stored s).Readable ∧ t.size = s.size ∧
    ∀ i, t.contains i = s.contains i := by
  cases seeds with
  | none made =>
    obtain ⟨small, rfl⟩ := ArraySet.allocate_eq_ok made
    refine ⟨⟨nofun, small⟩, readable_stored (ArraySet.trimmed_empty _) small, rfl, fun i => ?_⟩
    exact (Bool.eq_false_iff.mpr ArraySet.not_mem_empty).symm
  | all made =>
    obtain ⟨⟨trimmed, small⟩, rfl, members⟩ := ArraySet.full_eq_ok made
    refine ⟨⟨nofun, small⟩, readable_stored trimmed small, rfl, fun i => ?_⟩
    rw [Bool.eq_iff_iff, contains, decide_eq_true_eq]
    exact (members i).symm

theorem Seeds.alike (seeds : t.Seeds s) : t.Alike (.stored s) := by
  obtain ⟨left, right, size, same⟩ := seeds.readable
  exact alike_of_contains left right size same

/-- A full set has no word of the last index of 64 bits, as it asks for the next one. -/
theorem word_lastIndex (small : size + 63 < sizeLimit) (past : sizeLimit ≤ index + 1) :
    (all size).word index = .error .overflow := by
  rw [word, wordsFor_eq small, ok_bind, addSizes, if_neg (Nat.not_lt.mpr past)]
  rfl

/-- No other word of a seed differs from the stored one. -/
theorem Seeds.word_iff (seeds : t.Seeds s) (index : Nat) :
    t.word index = (stored s).word index ↔ index + 1 < sizeLimit ∨ t = .none s.size := by
  by_cases small : index + 1 < sizeLimit
  · obtain ⟨word, mine, theirs⟩ := seeds.alike.word index small
    exact iff_of_true (mine.trans theirs.symm) (Or.inl small)
  · cases seeds with
    | none made =>
      obtain ⟨_, rfl⟩ := ArraySet.allocate_eq_ok made
      exact iff_of_true (congrArg Except.ok (ArraySet.word_empty _ _).symm) (Or.inr rfl)
    | @all size s made =>
      have countable : size + 63 < sizeLimit := (Seeds.all made).readable.1.small
      rw [word_lastIndex countable (Nat.le_of_not_lt small)]
      exact iff_of_false nofun (by simp [small])

end DocSet

end DocStore
