import Mathlib.Tactic.Choose
import DocStore.Bits.DocSet
import DocStore.Proofs.Ascending
import DocStore.Proofs.Bits.Words
import DocStore.Proofs.Outcomes

/-! Stored sets by their members. Every operation keeps the bits at and past the size clear, and
sets with the same members are then the same set. -/
namespace DocStore

theorem wordsFor_eq {size : Nat} (small : size + 63 < sizeLimit) :
    wordsFor size = .ok (wordCount size) := by
  rw [wordsFor, addSizes_of_lt small]
  rfl

namespace ArraySet

variable {s t : ArraySet} {i index bit : Nat}

instance : Membership Nat ArraySet := ⟨fun s i => s.contains i = true⟩

instance : Decidable (i ∈ s) := inferInstanceAs (Decidable (s.contains i = true))

/-- The bits at and past the size are clear. -/
def Trimmed (s : ArraySet) : Prop :=
  ∀ i, s.size ≤ i → Word.hasBit (s.word (i / 64)) (i % 64) = false

theorem mem_iff : i ∈ s ↔ i < s.size ∧ Word.hasBit (s.word (i / 64)) (i % 64) = true := by
  change s.contains i = true ↔ _
  rw [contains, Bool.and_eq_true, decide_eq_true_eq]

theorem lt_of_mem (member : i ∈ s) : i < s.size := (mem_iff.mp member).1

theorem contains_eq : s.contains i = decide (i ∈ s) := by
  change s.contains i = decide (s.contains i = true)
  simp

theorem hasBit_word (trimmed : s.Trimmed) (inside : bit < 64) :
    Word.hasBit (s.word index) bit = s.contains (index * 64 + bit) := by
  have high : (index * 64 + bit) / 64 = index := by omega
  have low : (index * 64 + bit) % 64 = bit := by omega
  rw [contains, high, low]
  by_cases below : index * 64 + bit < s.size
  · simp [below]
  · have clear := trimmed (index * 64 + bit) (Nat.le_of_not_lt below)
    rw [high, low] at clear
    simp [clear]

theorem word_past (past : wordCount s.size ≤ index) : s.word index = 0 := by
  rw [word, Array.getD_eq_getD_getElem?, Array.getElem?_eq_none (by rw [s.words_size]; exact past)]
  rfl

/-- Sets of one size with the same members are one set. -/
theorem eq_of_mem (left : s.Trimmed) (right : t.Trimmed) (size : s.size = t.size)
    (same : ∀ i, i ∈ s ↔ i ∈ t) : s = t := by
  have words : s.words = t.words := by
    refine Array.ext (by rw [s.words_size, t.words_size, size]) fun index here there => ?_
    have word : s.word index = t.word index := Word.eq_of_hasBit fun bit inside => by
      rw [hasBit_word left inside, hasBit_word right inside, contains_eq, contains_eq,
        decide_eq_decide.mpr (same _)]
    simpa [ArraySet.word, Array.getD_eq_getD_getElem?, here, there] using word
  cases s
  cases t
  simp_all

theorem word_mapWords {f : Nat → UInt64 → UInt64} (inside : index < wordCount s.size) :
    (s.mapWords f).word index = f index (s.word index) := by
  have here : index < s.words.size := s.words_size ▸ inside
  simp [word, mapWords, Array.getD_eq_getD_getElem?, here]

theorem word_modifyWord {f : UInt64 → UInt64} (inside : index < wordCount s.size) (at_ : Nat) :
    (s.modifyWord at_ f).word index = if at_ = index then f (s.word index) else s.word index := by
  have here : index < s.words.size := s.words_size ▸ inside
  simp only [word, modifyWord, Array.getD_eq_getD_getElem?, Array.getElem?_modify, here,
    Array.getElem?_eq_getElem]
  split <;> simp

theorem mem_modifyWord {f : UInt64 → UInt64} (at_ : Nat) :
    i ∈ s.modifyWord at_ f ↔ i < s.size ∧
      Word.hasBit (if at_ = i / 64 then f (s.word (i / 64)) else s.word (i / 64)) (i % 64) = true := by
  rw [mem_iff, size_modifyWord]
  refine and_congr_right fun inside => ?_
  rw [word_modifyWord (div_lt_wordCount inside)]

theorem mem_mapWords {f : Nat → UInt64 → UInt64} :
    i ∈ s.mapWords f ↔ i < s.size ∧
      Word.hasBit (f (i / 64) (s.word (i / 64))) (i % 64) = true := by
  rw [mem_iff, size_mapWords]
  refine and_congr_right fun inside => ?_
  rw [word_mapWords (div_lt_wordCount inside)]

theorem mem_trim : i ∈ s.trim ↔ i ∈ s := by
  rw [trim, mem_modifyWord, mem_iff]
  refine and_congr_right fun inside => ?_
  split
  · rw [Word.hasBit_and, Word.hasBit_lastMask (Nat.mod_lt _ (by decide)), decide_eq_true,
      Bool.and_true]
    unfold wordCount at *
    omega
  · rfl

theorem trimmed_trim (s : ArraySet) : s.trim.Trimmed := fun i past => by
  rw [size_trim] at past
  by_cases inside : i / 64 < wordCount s.size
  · rw [trim, word_modifyWord inside, if_pos (by unfold wordCount at *; omega), Word.hasBit_and,
      Word.hasBit_lastMask (Nat.mod_lt _ (by decide)), decide_eq_false, Bool.and_false]
    unfold wordCount at inside
    omega
  · rw [word_past (by simpa using inside), Word.hasBit_zero]

theorem trimmed_of_bits (past : ∀ i, s.size ≤ i → i / 64 < wordCount s.size →
    Word.hasBit (s.word (i / 64)) (i % 64) = false) : s.Trimmed := fun i beyond => by
  by_cases inside : i / 64 < wordCount s.size
  · exact past i beyond inside
  · rw [word_past (Nat.le_of_not_lt inside), Word.hasBit_zero]

theorem word_empty (size index : Nat) : (empty size).word index = 0 := by
  simp only [word, empty, Array.getD_eq_getD_getElem?, Array.getElem?_replicate]
  split <;> rfl

theorem not_mem_empty {size : Nat} : i ∉ empty size := fun member => by
  have bit := (mem_iff.mp member).2
  rw [word_empty, Word.hasBit_zero] at bit
  contradiction

theorem trimmed_empty (size : Nat) : (empty size).Trimmed := fun i _ => by
  rw [word_empty, Word.hasBit_zero]

theorem clear_eq_empty (s : ArraySet) : s.clear = empty s.size := by
  refine eq_of_mem (trimmed_of_bits fun i _ inside => ?_) (trimmed_empty _) rfl fun i => ?_
  · rw [clear, word_mapWords (by simpa using inside), Word.hasBit_zero]
  · rw [clear, mem_mapWords, Word.hasBit_zero]
    simp [not_mem_empty]

theorem allocate_eq {size : Nat} (small : size + 63 < sizeLimit) :
    allocate size = .ok (empty size) := by
  rw [allocate, wordsFor_eq small]
  rfl

theorem insert_eq (inside : index < s.size) :
    s.insert index = .ok (s.modifyWord (index / 64) (· ||| Word.single index)) := if_pos inside

theorem insert_cases (inserted : s.insert index = .ok t) :
    index < s.size ∧ t = s.modifyWord (index / 64) (· ||| Word.single index) := by
  unfold insert at inserted
  split at inserted
  · exact ⟨‹_›, (Except.ok.inj inserted).symm⟩
  · contradiction

theorem size_insert (inserted : s.insert index = .ok t) : t.size = s.size := by
  rw [(insert_cases inserted).2, size_modifyWord]

theorem mem_insert (inserted : s.insert index = .ok t) : i ∈ t ↔ i = index ∨ i ∈ s := by
  obtain ⟨inside, rfl⟩ := insert_cases inserted
  rw [mem_modifyWord, mem_iff]
  split
  · rw [Word.hasBit_or, Word.hasBit_single (Nat.mod_lt _ (by decide)), Bool.or_eq_true,
      decide_eq_true_eq]
    grind
  · grind

theorem trimmed_insert (inserted : s.insert index = .ok t) (trimmed : s.Trimmed) : t.Trimmed := by
  obtain ⟨inside, rfl⟩ := insert_cases inserted
  refine trimmed_of_bits fun i past here => ?_
  rw [size_modifyWord] at past here
  rw [word_modifyWord here]
  split
  · rw [Word.hasBit_or, trimmed i past, Word.hasBit_single (Nat.mod_lt _ (by decide)),
      Bool.false_or, decide_eq_false]
    omega
  · exact trimmed i past

/-- Adding numbers below the size one after the other. -/
theorem foldlM_insert {members : List Nat} (inside : ∀ i ∈ members, i < s.size) :
    ∃ t, members.foldlM insert s = .ok t ∧ t.size = s.size ∧ (s.Trimmed → t.Trimmed) ∧
      ∀ i, i ∈ t ↔ i ∈ members ∨ i ∈ s := by
  induction members generalizing s with
  | nil => exact ⟨s, rfl, rfl, id, fun i => by simp⟩
  | cons first rest ih =>
    have inserted := insert_eq (inside first List.mem_cons_self)
    have size := size_insert inserted
    obtain ⟨t, filled, sizes, trims, members⟩ :=
      ih fun i later => size.symm ▸ inside i (List.mem_cons_of_mem _ later)
    refine ⟨t, by rw [List.foldlM_cons, inserted, ok_bind, filled], sizes.trans size,
      fun trimmed => trims (trimmed_insert inserted trimmed), fun i => ?_⟩
    rw [members, mem_insert inserted, List.mem_cons, or_left_comm, or_assoc]

theorem size_erase (s : ArraySet) (index : Nat) : (s.erase index).size = s.size := by
  unfold erase
  split <;> rfl

theorem mem_erase : i ∈ s.erase index ↔ i ≠ index ∧ i ∈ s := by
  unfold erase
  split
  · rw [mem_modifyWord, mem_iff]
    split
    · rw [Word.hasBit_and, Word.hasBit_not (Nat.mod_lt _ (by decide)),
        Word.hasBit_single (Nat.mod_lt _ (by decide)), Bool.and_eq_true, Bool.not_eq_true',
        decide_eq_false_iff_not]
      grind
    · grind
  · rename_i past
    refine ⟨fun member => ⟨?_, member⟩, And.right⟩
    rintro rfl
    exact past (lt_of_mem member)

theorem trimmed_erase (trimmed : s.Trimmed) : (s.erase index).Trimmed := by
  unfold erase
  split
  · refine trimmed_of_bits fun i past here => ?_
    rw [size_modifyWord] at past here
    rw [word_modifyWord here]
    split
    · rw [Word.hasBit_and, trimmed i past, Bool.false_and]
    · exact trimmed i past
  · exact trimmed

/-- Removing numbers one after the other. -/
theorem foldl_erase (s : ArraySet) (members : List Nat) :
    (members.foldl erase s).size = s.size ∧ (s.Trimmed → (members.foldl erase s).Trimmed) ∧
      ∀ i, i ∈ members.foldl erase s ↔ i ∉ members ∧ i ∈ s := by
  induction members generalizing s with
  | nil => exact ⟨rfl, id, fun i => by simp⟩
  | cons first rest ih =>
    obtain ⟨size, trims, members⟩ := ih (s.erase first)
    rw [List.foldl_cons]
    refine ⟨size.trans (size_erase s first), fun trimmed => trims (trimmed_erase trimmed),
      fun i => ?_⟩
    rw [members, mem_erase, List.mem_cons, not_or, and_left_comm, and_assoc]

theorem mem_complement : i ∈ s.complement ↔ i < s.size ∧ i ∉ s := by
  rw [complement, mem_trim, mem_mapWords, mem_iff]
  refine and_congr_right fun inside => ?_
  rw [Word.hasBit_not (Nat.mod_lt _ (by decide)), Bool.not_eq_true']
  simp [inside]

theorem trimmed_complement (s : ArraySet) : s.complement.Trimmed := trimmed_trim _

end ArraySet

namespace DocSet

variable {t : DocSet} {index bit : Nat}

structure Readable (t : DocSet) : Prop where
  trimmed : ∀ s, t = stored s → s.Trimmed
  small : t.size + 63 < sizeLimit

/-- Every word can be read, whatever the size: a stored set has no bit past it, and the words of
the full set can be counted. -/
structure Legible (t : DocSet) : Prop where
  trimmed : ∀ s, t = stored s → s.Trimmed
  countable : ∀ size, t = all size → size + 63 < sizeLimit

theorem legible_all {size : Nat} (small : size + 63 < sizeLimit) : (all size).Legible where
  trimmed _ other := nomatch other
  countable := by
    rintro _ ⟨⟩
    exact small

theorem Readable.legible (readable : t.Readable) : t.Legible where
  trimmed := readable.trimmed
  countable := by
    rintro size rfl
    exact readable.small

theorem readable_stored {s : ArraySet} (trimmed : s.Trimmed) (small : s.size + 63 < sizeLimit) :
    (stored s).Readable where
  trimmed := by
    rintro _ ⟨⟩
    exact trimmed
  small := small

theorem lt_of_contains (member : t.contains index = true) : index < t.size := by
  cases t with
  | none size => contradiction
  | all size => exact of_decide_eq_true member
  | stored s => exact ArraySet.lt_of_mem member

theorem word_eq (legible : t.Legible) (small : index + 1 < sizeLimit) :
    ∃ w, t.word index = .ok w ∧ ∀ bit < 64, Word.hasBit w bit = t.contains (index * 64 + bit) := by
  cases t with
  | none size => exact ⟨0, rfl, fun bit _ => Word.hasBit_zero bit⟩
  | stored s =>
    exact ⟨s.word index, rfl, fun bit inside =>
      ArraySet.hasBit_word (legible.trimmed s rfl) inside⟩
  | all size =>
    have room := legible.countable size rfl
    simp only [word, wordsFor, addSizes_of_lt room, addSizes_of_lt small, ok_bind, pure_eq_ok]
    refine ⟨_, rfl, fun bit inside => ?_⟩
    rw [contains]
    split
    · rw [Word.hasBit_allBits inside, decide_eq_true]
      omega
    · split
      · rw [Word.hasBit_lastMask inside]
        exact decide_eq_decide.mpr (by omega)
      · rw [Word.hasBit_zero, decide_eq_false]
        omega

theorem firstWords_of_words {count : Nat} {word : Nat → UInt64}
    (each : ∀ index < count, t.word index = .ok (word index)) :
    t.firstWords count = .ok ((List.range count).map word).toArray := by
  rw [firstWords, Array.mapM_eq_mapM_toList, Array.toList_range,
    mapM_eq_ok fun index inside => each index (List.mem_range.mp inside)]
  rfl

theorem firstWords_eq {count : Nat} (legible : 0 < count → t.Legible) (small : count < sizeLimit) :
    ∃ words, t.firstWords count = .ok words ∧ ∀ index < count, ∀ bit < 64,
      Word.hasBit (words.getD index 0) bit = t.contains (index * 64 + bit) := by
  have each : ∀ index < count, ∃ word, t.word index = .ok word ∧
      ∀ bit < 64, Word.hasBit word bit = t.contains (index * 64 + bit) := by
    intro index inside
    exact word_eq (legible (by omega)) (by omega)
  choose! word known bits using each
  refine ⟨_, firstWords_of_words known, ?_⟩
  intro index inside bit low
  rw [← bits index inside bit low]
  simp [Array.getD_eq_getD_getElem?, inside]

end DocSet

namespace ArraySet

variable {s : ArraySet} {t : DocSet} {i : Nat}

theorem size_words_lt (small : s.size + 63 < sizeLimit) : s.words.size < sizeLimit := by
  rw [s.words_size, wordCount]
  omega

/-- Combining with the words of another set, which a set without words does not read. -/
theorem combine_eq {f : UInt64 → UInt64 → UInt64} (legible : 0 < s.size → t.Legible)
    (small : s.size + 63 < sizeLimit) : ∃ u, s.combine f t = .ok u ∧ u.size = s.size ∧
      ∀ index < wordCount s.size, ∃ theirs,
        (∀ bit < 64, Word.hasBit theirs bit = t.contains (index * 64 + bit)) ∧
        u.word index = f (s.word index) theirs := by
  have read : 0 < s.words.size → t.Legible := by
    intro some
    rw [s.words_size, wordCount] at some
    exact legible (by omega)
  obtain ⟨words, read, bits⟩ := DocSet.firstWords_eq read (size_words_lt small)
  refine ⟨s.mapWords fun i word => f word (words.getD i 0), by rw [combine, read]; rfl, rfl,
    fun index inside => ⟨words.getD index 0, ?_, ?_⟩⟩
  · exact bits index (s.words_size ▸ inside)
  · exact word_mapWords inside

/-- Adding the members of another set. -/
theorem union_eq (legible : 0 < s.size → t.Legible) (small : s.size + 63 < sizeLimit) :
    ∃ u, s.union t = .ok u ∧ u.size = s.size ∧ u.Trimmed ∧
      ∀ i, i ∈ u ↔ i ∈ s ∨ (i < s.size ∧ t.contains i = true) := by
  obtain ⟨u, combined, size, words⟩ := combine_eq (f := (· ||| ·)) legible small
  refine ⟨u.trim, by rw [union, combined]; rfl, size, trimmed_trim u, fun i => ?_⟩
  rw [mem_trim, mem_iff, mem_iff, size, ← and_or_left]
  refine and_congr_right fun inside => ?_
  obtain ⟨theirs, bits, word⟩ := words (i / 64) (div_lt_wordCount inside)
  rw [word, Word.hasBit_or, bits _ (Nat.mod_lt _ (by decide)), Nat.div_add_mod', Bool.or_eq_true]

theorem anyBit_iff (trimmed : s.Trimmed) : s.anyBit = true ↔ ∃ i, i ∈ s := by
  unfold anyBit
  rw [Array.any_eq_true]
  constructor
  · rintro ⟨index, inside, some⟩
    obtain ⟨bit, low, set⟩ := Word.ne_zero_iff.mp (bne_iff_ne.mp some)
    have word : s.word index = s.words[index] := by
      simp [ArraySet.word, Array.getD_eq_getD_getElem?, inside]
    rw [← word, hasBit_word trimmed low] at set
    exact ⟨_, set⟩
  · rintro ⟨i, member⟩
    obtain ⟨below, bit⟩ := mem_iff.mp member
    have inside : i / 64 < s.words.size := s.words_size ▸ div_lt_wordCount below
    refine ⟨i / 64, inside, bne_iff_ne.mpr (Word.ne_zero_iff.mpr ⟨i % 64, by omega, ?_⟩)⟩
    simpa [ArraySet.word, Array.getD_eq_getD_getElem?, inside] using bit

/-- Keeping the members of another set. -/
theorem inter_eq (trimmed : s.Trimmed) (legible : 0 < s.size → t.Legible)
    (small : s.size + 63 < sizeLimit) :
    ∃ some u, s.inter t = .ok (some, u) ∧ u.size = s.size ∧ u.Trimmed ∧
      (∀ i, i ∈ u ↔ i ∈ s ∧ t.contains i = true) ∧ (some = true ↔ ∃ i, i ∈ u) := by
  obtain ⟨u, combined, size, words⟩ := combine_eq (f := (· &&& ·)) legible small
  have trims : u.Trimmed := trimmed_of_bits fun i past here => by
    rw [size] at past here
    obtain ⟨theirs, _, word⟩ := words (i / 64) here
    rw [word, Word.hasBit_and, trimmed i past, Bool.false_and]
  refine ⟨u.anyBit, u, by rw [inter, combined]; rfl, size, trims, fun i => ?_, anyBit_iff trims⟩
  rw [mem_iff, mem_iff, size, and_assoc]
  refine and_congr_right fun inside => ?_
  obtain ⟨theirs, bits, word⟩ := words (i / 64) (div_lt_wordCount inside)
  rw [word, Word.hasBit_and, bits _ (Nat.mod_lt _ (by decide)), Nat.div_add_mod', Bool.and_eq_true]

theorem range_flatMap (count width : Nat) :
    (List.range count).flatMap (fun i => (List.range width).map (i * width + ·)) =
      List.range (count * width) := by
  induction count with
  | zero => simp
  | succ count ih =>
    rw [List.range_succ, List.flatMap_append, ih, List.flatMap_singleton, Nat.succ_mul,
      List.range_add]

/-- The members in ascending order. -/
theorem toList_eq (trimmed : s.Trimmed) : s.toList = (List.range s.size).filter s.contains := by
  have words : ∀ i, (Word.positions (s.word i)).map (i * 64 + ·) =
      ((List.range 64).map (i * 64 + ·)).filter s.contains := fun i => by
    rw [Word.positions_eq_filter, List.filter_map]
    refine congrArg (List.map _) (List.filter_congr fun bit inside => ?_)
    exact hasBit_word trimmed (List.mem_range.mp inside)
  have room : s.size ≤ wordCount s.size * 64 := by
    unfold wordCount
    omega
  obtain ⟨rest, whole⟩ := Nat.exists_eq_add_of_le room
  unfold toList
  simp only [words]
  have none : ((List.range rest).map (s.size + ·)).filter s.contains = [] := by
    refine List.filter_eq_nil_iff.mpr fun i inside => ?_
    obtain ⟨k, _, rfl⟩ := List.mem_map.mp inside
    exact fun member => absurd (lt_of_mem member) (by omega)
  rw [← List.filter_flatMap, range_flatMap, s.words_size, whole, List.range_add,
    List.filter_append, none, List.append_nil]

theorem mem_toList (trimmed : s.Trimmed) : i ∈ s.toList ↔ i ∈ s := by
  rw [toList_eq trimmed, List.mem_filter, List.mem_range]
  exact ⟨And.right, fun member => ⟨lt_of_mem member, member⟩⟩

theorem toList_ascending (trimmed : s.Trimmed) : s.toList.Pairwise (· < ·) := by
  rw [toList_eq trimmed]
  exact List.pairwise_lt_range.filter _

theorem cardinality_eq (s : ArraySet) : s.cardinality = s.toList.length := by
  have words : s.words.toList = (List.range s.words.size).map s.word :=
    List.ext_getElem (by simp) fun k inside _ => by
      have here : k < s.words.size := by simpa using inside
      simp [ArraySet.word, Array.getD_eq_getD_getElem?, here]
  rw [cardinality, words, toList, List.length_flatMap, List.map_map]
  simp only [List.length_map]
  rfl

theorem firstMember?_eq_none {words : List UInt64} :
    firstMember? i words = none ↔ ∀ word ∈ words, word = 0 := by
  induction words generalizing i with
  | nil => simp [firstMember?]
  | cons word rest ih =>
    unfold firstMember?
    cases found : Word.lowest? word with
    | none => simp [Word.lowest?_eq_none.mp found, ih]
    | some bit =>
      have filled : word ≠ 0 := fun zero => by
        rw [Word.lowest?_eq_none.mpr zero] at found
        contradiction
      simp [filled]

theorem isEmpty_iff (trimmed : s.Trimmed) : s.isEmpty = true ↔ ∀ i, i ∉ s := by
  have zeros : ¬ s.anyBit = true ↔ ∀ word ∈ s.words.toList, word = 0 := by
    rw [anyBit, ← Array.any_toList, Bool.not_eq_true, List.any_eq_false]
    exact forall_congr' fun word => imp_congr_right fun _ => by simp
  rw [isEmpty, Option.isNone_iff_eq_none, ← not_exists, ← anyBit_iff trimmed, zeros, next?]
  by_cases some : 0 < s.size
  · have masked : ∀ word : UInt64, word &&& Word.bitsFrom 0 = word := fun word =>
      Word.eq_of_hasBit fun bit inside => by
        rw [Word.hasBit_and, Word.hasBit_bitsFrom inside]
        simp
    rw [if_pos some, Nat.zero_div, List.drop_zero]
    cases words : s.words.toList with
    | nil => simp
    | cons word rest =>
      simp only
      rw [masked, firstMember?_eq_none]
  · have none : s.words.toList = [] := by
      rw [← List.length_eq_zero_iff, Array.length_toList, s.words_size]
      unfold wordCount
      omega
    simp [some, none]

theorem uniteStored_go {stored : View} {offset : Nat} {read : Nat → Nat} {indexes : List Nat}
    (within : ∀ k ∈ indexes, k < wordCount s.size)
    (reads : ∀ k ∈ indexes, stored.uint64At (offset + k * 8) = .ok (read k)) :
    ∃ t, uniteStored.go stored offset s indexes = (t, none) ∧ t.size = s.size ∧ t.Trimmed ∧
      ∀ i, i ∈ t ↔ i ∈ s ∨ (i < s.size ∧ i / 64 ∈ indexes ∧
        Word.hasBit (UInt64.ofNat (read (i / 64))) (i % 64) = true) := by
  induction indexes generalizing s with
  | nil => exact ⟨s.trim, rfl, rfl, trimmed_trim s, fun i => by simp [mem_trim]⟩
  | cons k rest ih =>
    obtain ⟨t, added, size, trims, members⟩ :=
      @ih (s.modifyWord k (· ||| UInt64.ofNat (read k)))
        (fun i later => within i (List.mem_cons_of_mem _ later))
        fun i later => reads i (List.mem_cons_of_mem _ later)
    refine ⟨t, ?_, size, trims, fun i => ?_⟩
    · rw [uniteStored.go, reads k List.mem_cons_self]
      exact added
    · rw [members, mem_modifyWord, mem_iff, size_modifyWord, List.mem_cons]
      by_cases here : k = i / 64
      · rw [if_pos here, Word.hasBit_or, Bool.or_eq_true]
        grind
      · rw [if_neg here]
        grind

/-- Adding the members of stored words, as far as the set has words for them. Words behind those
are not read. -/
theorem uniteStored_eq {stored : View} {offset count : Nat} {read : Nat → Nat}
    (reads : ∀ k < min count (wordCount s.size), stored.uint64At (offset + k * 8) = .ok (read k)) :
    ∃ t, s.uniteStored stored offset count = (t, none) ∧ t.size = s.size ∧ t.Trimmed ∧
      ∀ i, i ∈ t ↔ i ∈ s ∨ (i < s.size ∧ i / 64 < count ∧
        Word.hasBit (UInt64.ofNat (read (i / 64))) (i % 64) = true) := by
  obtain ⟨t, added, size, trims, members⟩ := @uniteStored_go s stored offset read
    (List.range (min count s.words.size))
    (fun k inside => s.words_size ▸ (Nat.lt_min.mp (List.mem_range.mp inside)).2)
    fun k inside => reads k (s.words_size ▸ List.mem_range.mp inside)
  refine ⟨t, added, size, trims, fun i => ?_⟩
  rw [members, List.mem_range, s.words_size, Nat.lt_min]
  have := @div_lt_wordCount i s.size
  grind

end ArraySet

namespace DocSet

variable {t : DocSet} {i : Nat}

/-- The members in ascending order. -/
theorem toList_eq (legible : t.Legible) : t.toList = (List.range t.size).filter t.contains := by
  cases t with
  | none size => exact (List.filter_eq_nil_iff.mpr fun _ _ => Bool.false_ne_true).symm
  | all size =>
    exact (List.filter_eq_self.mpr fun i inside => decide_eq_true (List.mem_range.mp inside)).symm
  | stored s => exact ArraySet.toList_eq (legible.trimmed s rfl)

theorem mem_toList (legible : t.Legible) : i ∈ t.toList ↔ t.contains i = true := by
  rw [toList_eq legible, List.mem_filter, List.mem_range]
  exact ⟨And.right, fun member => ⟨lt_of_contains member, member⟩⟩

theorem toList_ascending (legible : t.Legible) : t.toList.Pairwise (· < ·) := by
  rw [toList_eq legible]
  exact List.pairwise_lt_range.filter _

structure Within (t : DocSet) (documents : Nat) : Prop where
  legible : t.Legible
  below : ∀ document, t.contains document = true → document < documents

theorem Readable.within {documents : Nat} (readable : t.Readable) (size : t.size = documents) :
    t.Within documents :=
  ⟨readable.legible, fun _ member => size ▸ lt_of_contains member⟩

theorem within_all {documents : Nat} (small : documents + 63 < sizeLimit) :
    (all documents).Within documents :=
  ⟨legible_all small, fun _ member => of_decide_eq_true member⟩

theorem Within.toList_eq {documents : Nat} (within : t.Within documents) :
    t.toList = (List.range documents).filter t.contains := by
  refine eq_of_ascending (toList_ascending within.legible) (List.pairwise_lt_range.filter _) ?_
  intro i
  rw [mem_toList within.legible, List.mem_filter, List.mem_range]
  exact ⟨fun member => ⟨within.below i member, member⟩, And.right⟩

theorem cardinality_eq (t : DocSet) : t.cardinality = t.toList.length := by
  cases t with
  | none size => rfl
  | all size => exact List.length_range.symm
  | stored s => exact ArraySet.cardinality_eq s

theorem isEmpty_iff (legible : t.Legible) : t.isEmpty = true ↔ t.toList = [] := by
  cases t with
  | none size => exact ⟨fun _ => rfl, fun _ => rfl⟩
  | all size => simp [isEmpty, toList]
  | stored s =>
    have trimmed := legible.trimmed s rfl
    rw [isEmpty, ArraySet.isEmpty_iff trimmed, toList, List.eq_nil_iff_forall_not_mem]
    exact forall_congr' fun i => not_congr (ArraySet.mem_toList trimmed).symm

end DocSet

end DocStore
