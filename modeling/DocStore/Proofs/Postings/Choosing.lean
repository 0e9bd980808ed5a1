import DocStore.Proofs.Postings.Decoding

/-! The form that a builder of postings chooses, against the lengths of the two forms. The choice
counts each pair as often as it was put, and what is written has it once; so the list looks longer
than it is by four bytes for every repeated pair. -/
namespace DocStore.PostingsBuilder

variable {b b' start : PostingsBuilder} {key document keys documents : Nat}
  {pairs : List (Nat × Nat)}

def bitsLength (keys documents : Nat) : Nat := 12 + keys * wordCount documents * 8

/-- Where 64 bits do not hold the length of the bit form, asking for it is a fault. -/
theorem bitFormLength_eq (countable : b.documents + 63 < sizeLimit) :
    b.bitFormLength = if bitsLength b.keys b.documents < sizeLimit then
      .ok (bitsLength b.keys b.documents) else .error .overflow := by
  rw [bitFormLength, wordsFor_eq countable, ok_bind, bitsLength]
  split
  · rename_i fits
    rw [mulSizes_of_lt (by omega), ok_bind, mulSizes_of_lt (by omega), ok_bind,
      addSizes_of_lt fits]
  · rename_i large
    by_cases cells : b.keys * wordCount b.documents < sizeLimit
    · rw [mulSizes_of_lt cells, ok_bind]
      by_cases bytes : b.keys * wordCount b.documents * 8 < sizeLimit
      · rw [mulSizes_of_lt bytes, ok_bind, addSizes, if_neg large]
      · rw [mulSizes, if_neg bytes, error_bind]
    · rw [mulSizes, if_neg cells, error_bind]

theorem length_bitForm (b : PostingsBuilder) (words : Nat) :
    (b.normalize.bitForm words).length = 12 + b.keys * words * 8 := by
  have count := length_normalize b
  unfold bitForm
  simp only [List.length_append, Bytes.length_ofUInt32, PostingBits.length_vectors, count]

/-- A pair as it is kept: document numbers have 32 bits. -/
def kept (pair : Nat × Nat) : Nat × Nat := (pair.1, pair.2 % 2 ^ 32)

theorem length_flatten_modify {lists : List (List Nat)} (inside : key < lists.length) :
    (lists.modify key (· ++ [document])).flatten.length = lists.flatten.length + 1 := by
  induction lists generalizing key with
  | nil => exact absurd inside (Nat.not_lt_zero _)
  | cons first rest ih =>
    cases key with
    | zero =>
      simp only [List.modify_zero_cons, List.flatten_cons, List.length_append,
        List.length_singleton]
      omega
    | succ key =>
      simp only [List.modify_succ_cons, List.flatten_cons, List.length_append,
        ih (Nat.lt_of_succ_lt_succ inside)]
      omega

/-- What is put counts as one more pair, also if it is there already. -/
theorem pairs_put (put : b.put key document = .ok b') :
    b'.pairs = b.pairs + 1 ∧ b'.documents = b.documents ∧ b'.keys = b.keys := by
  unfold PostingsBuilder.put at put
  split at put
  · split at put
    · rename_i inside
      cases put
      refine ⟨?_, rfl, Array.size_modify⟩
      rw [pairs, Array.toList_modify, length_flatten_modify (by simpa using inside), pairs]
    · contradiction
  · contradiction

theorem pairs_putAll (put : b.putAll pairs = (b', none)) : b'.pairs = b.pairs + pairs.length := by
  induction pairs generalizing b with
  | nil =>
    cases put
    rfl
  | cons pair rest ih =>
    obtain ⟨key, document⟩ := pair
    rw [putAll] at put
    cases step : b.put key document with
    | error fault => simp [step] at put
    | ok next =>
      rw [step] at put
      rw [ih put, (pairs_put step).1, List.length_cons]
      omega

theorem put_kept (inside : document < b.documents) :
    b.put key (document % 2 ^ 32) = b.put key document := by
  have below : document % 2 ^ 32 < b.documents := Nat.lt_of_le_of_lt (Nat.mod_le _ _) inside
  rw [PostingsBuilder.put, PostingsBuilder.put, if_pos inside, if_pos below]
  simp only [show (0x100000000 : Nat) = 2 ^ 32 from rfl, Nat.mod_mod]

theorem putAll_kept (inside : ∀ pair ∈ pairs, pair.2 < b.documents) :
    b.putAll (pairs.map kept) = b.putAll pairs := by
  induction pairs generalizing b with
  | nil => rfl
  | cons pair rest ih =>
    obtain ⟨key, document⟩ := pair
    rw [List.map_cons, kept, putAll, putAll, put_kept (inside _ List.mem_cons_self)]
    cases step : b.put key document with
    | error fault => rfl
    | ok next =>
      exact ih fun pair later =>
        (pairs_put step).2.1.symm ▸ inside pair (List.mem_cons_of_mem _ later)

/-- Pairs in range are put without a fault, and gathered as they are kept. -/
theorem gathers_kept (inside : ∀ pair ∈ pairs, pair.1 < keys ∧ pair.2 < documents) :
    ∃ b, (empty keys documents).putAll pairs = (b, none) ∧
      b.Gathers keys documents (pairs.map kept) ∧ b.pairs = pairs.length := by
  have inside' : ∀ pair ∈ pairs.map kept, pair.1 < keys ∧ pair.2 < documents := by
    intro pair mapped
    obtain ⟨put, listed, rfl⟩ := List.mem_map.mp mapped
    exact ⟨(inside put listed).1, Nat.lt_of_le_of_lt (Nat.mod_le _ _) (inside put listed).2⟩
  have small : ∀ pair ∈ pairs.map kept, pair.2 < 2 ^ 32 := by
    intro pair mapped
    obtain ⟨put, _, rfl⟩ := List.mem_map.mp mapped
    exact Nat.mod_lt _ (Nat.two_pow_pos 32)
  obtain ⟨b, put, gathers⟩ := (gathers_empty keys documents).putAll inside' small
  rw [putAll_kept fun pair listed => (inside pair listed).2] at put
  refine ⟨b, put, gathers, ?_⟩
  rw [pairs_putAll put]
  simp [PostingsBuilder.pairs, empty]

def repeats (pairs : List (Nat × Nat)) : Nat := pairs.length - (pairs.map kept).dedup.length

theorem length_dedup_kept (pairs : List (Nat × Nat)) :
    (pairs.map kept).dedup.length + repeats pairs = pairs.length := by
  have fewer := (List.dedup_sublist (pairs.map kept)).length_le
  rw [List.length_map] at fewer
  unfold repeats
  omega

/-- The form that is written is the shorter one, and the list if they are alike. -/
def WritesShorter (b : PostingsBuilder) : Prop :=
  ∃ chosen written listed vectors, b.choice = .ok chosen ∧ b.form chosen = .ok written ∧
    b.form .list = .ok listed ∧ b.form .bits = .ok vectors ∧
    written.length = min listed.length vectors.length ∧
    (chosen = .list ↔ listed.length ≤ vectors.length)

def listLength (keys : Nat) (pairs : List (Nat × Nat)) : Nat :=
  12 + keys * 4 + (pairs.map kept).dedup.length * 4

namespace Gathers

variable (gathers : b.Gathers keys documents (pairs.map kept))

include gathers

theorem form_list_length : ∃ listed, b.form .list = .ok listed ∧
    listed.length = listLength keys pairs := by
  refine ⟨_, rfl, ?_⟩
  rw [length_listForm, gathers.pairs_normalize, gathers.keys, listLength]

theorem form_bits_length (countable : documents + 63 < sizeLimit) :
    ∃ vectors, b.form .bits = .ok vectors ∧ vectors.length = bitsLength keys documents := by
  refine ⟨b.normalize.bitForm (wordCount documents), ?_, ?_⟩
  · rw [form, gathers.documents, wordsFor_eq countable]
    rfl
  · rw [length_bitForm, gathers.keys, bitsLength]

/-- The list is taken to be longer than it is by four bytes for each repeated pair. -/
theorem listFormLength_eq (all : b.pairs = pairs.length) :
    b.listFormLength = listLength keys pairs + 4 * repeats pairs := by
  have count := length_dedup_kept pairs
  rw [listFormLength, gathers.keys, all, listLength]
  omega

theorem choice_eq_ok (all : b.pairs = pairs.length) (countable : documents + 63 < sizeLimit)
    (fits : bitsLength keys documents < sizeLimit) :
    b.choice = .ok (if bitsLength keys documents < listLength keys pairs + 4 * repeats pairs
      then .bits else .list) := by
  have length := @bitFormLength_eq b (gathers.documents ▸ countable)
  rw [gathers.keys, gathers.documents, if_pos fits] at length
  rw [choice, length, ok_bind, gathers.listFormLength_eq all]
  rfl

/-- Choosing needs the length of the bit form, also to write the list. -/
theorem fits_of_choice {chosen : PostingsEncoding} (made : b.choice = .ok chosen) :
    documents + 63 < sizeLimit ∧ bitsLength keys documents < sizeLimit := by
  have countable : documents + 63 < sizeLimit := by
    by_contra large
    rw [choice, bitFormLength, gathers.documents, wordsFor, addSizes, if_neg large] at made
    contradiction
  refine ⟨countable, ?_⟩
  by_contra large
  have length := @bitFormLength_eq b (gathers.documents ▸ countable)
  rw [gathers.keys, gathers.documents, if_neg large] at length
  rw [choice, length] at made
  contradiction

theorem writesShorter_iff (all : b.pairs = pairs.length) : b.WritesShorter ↔
    documents + 63 < sizeLimit ∧ bitsLength keys documents < sizeLimit ∧
      ¬ (listLength keys pairs ≤ bitsLength keys documents ∧
        bitsLength keys documents < listLength keys pairs + 4 * repeats pairs) := by
  obtain ⟨listed, list, short⟩ := gathers.form_list_length
  constructor
  · rintro ⟨chosen, written, _, vectors, made, _, list', bits, _, tie⟩
    obtain ⟨countable, fits⟩ := gathers.fits_of_choice made
    refine ⟨countable, fits, ?_⟩
    rintro ⟨alike, mistaken⟩
    obtain ⟨_, bits', long⟩ := gathers.form_bits_length countable
    cases list.symm.trans list'
    cases bits.symm.trans bits'
    rw [gathers.choice_eq_ok all countable fits, if_pos mistaken] at made
    cases made
    rw [short, long] at tie
    exact absurd (tie.mpr alike) (by decide)
  · rintro ⟨countable, fits, right⟩
    obtain ⟨vectors, bits, long⟩ := gathers.form_bits_length countable
    have made := gathers.choice_eq_ok all countable fits
    by_cases vector : bitsLength keys documents < listLength keys pairs + 4 * repeats pairs
    · have shorter : bitsLength keys documents < listLength keys pairs := by omega
      rw [if_pos vector] at made
      refine ⟨_, vectors, listed, vectors, made, bits, list, bits, ?_, ?_⟩
      · rw [short, long]
        omega
      · rw [short, long]
        exact iff_of_false (by decide) (by omega)
    · rw [if_neg vector] at made
      refine ⟨_, listed, listed, vectors, made, list, list, bits, ?_, ?_⟩
      · rw [short, long]
        omega
      · rw [short, long]
        exact iff_of_true rfl (by omega)

end Gathers

/-- Any pairs in range are put and both forms can be written. The shorter one is chosen unless
the bit form looks shorter only because pairs are repeated, and as long as 64 bits hold the length
of the bit form. -/
theorem chooses_shorter (allocated : allocate keys documents = .ok start)
    (inside : ∀ pair ∈ pairs, pair.1 < keys ∧ pair.2 < documents) :
    ∃ b, start.putAll pairs = (b, none) ∧
      (∃ listed, b.form .list = .ok listed ∧ listed.length = listLength keys pairs) ∧
      (documents + 63 < sizeLimit →
        ∃ vectors, b.form .bits = .ok vectors ∧ vectors.length = bitsLength keys documents) ∧
      (b.WritesShorter ↔ documents + 63 < sizeLimit ∧ bitsLength keys documents < sizeLimit ∧
        ¬ (listLength keys pairs ≤ bitsLength keys documents ∧
          bitsLength keys documents < listLength keys pairs + 4 * repeats pairs)) := by
  have same : start = empty keys documents := by
    unfold allocate at allocated
    split at allocated
    · exact (Except.ok.inj allocated).symm
    · contradiction
  subst same
  obtain ⟨b, put, gathers, all⟩ := gathers_kept inside
  exact ⟨b, put, gathers.form_list_length, gathers.form_bits_length, gathers.writesShorter_iff all⟩

/-- Two documents of one key, one of them put twice: the bit form is the shorter one anyway. -/
theorem chooses_shorter_dense : ∃ start b, allocate 1 2 = .ok start ∧
    start.putAll [(0, 0), (0, 1), (0, 0)] = (b, none) ∧ repeats [(0, 0), (0, 1), (0, 0)] = 1 ∧
    b.WritesShorter := by
  obtain ⟨b, put, _, _, shorter⟩ := @chooses_shorter (empty 1 2) 1 2
    [(0, 0), (0, 1), (0, 0)] rfl (by decide)
  exact ⟨_, b, rfl, put, by decide, shorter.mpr (by decide)⟩

/-- One pair, put three times: the bit form is written, and the list would be shorter. -/
theorem repeats_mislead : ∃ start b listed vectors, allocate 2 1 = .ok start ∧
    start.putAll [(0, 0), (0, 0), (0, 0)] = (b, none) ∧ b.choice = .ok .bits ∧
    b.form .list = .ok listed ∧ b.form .bits = .ok vectors ∧ listed.length = 24 ∧
    vectors.length = 28 ∧ ¬ b.WritesShorter := by
  obtain ⟨b, put, gathers, all⟩ := @gathers_kept 2 1 [(0, 0), (0, 0), (0, 0)] (by decide)
  obtain ⟨listed, list, short⟩ := gathers.form_list_length
  obtain ⟨vectors, bits, long⟩ := gathers.form_bits_length (by decide)
  have made := gathers.choice_eq_ok all (by decide) (by decide)
  refine ⟨_, b, listed, vectors, rfl, put, made.trans (by decide), list, bits, short.trans (by decide),
    long.trans (by decide), ?_⟩
  rw [gathers.writesShorter_iff all]
  decide

end DocStore.PostingsBuilder
