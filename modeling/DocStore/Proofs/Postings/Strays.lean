import Mathlib.Data.Finset.Union
import DocStore.Proofs.Bits.Operations
import DocStore.Proofs.Postings.Decoding

/-! What a lookup in decoded postings answers, whoever wrote the bytes. It adds just the documents
that the keys list. That it found some it also answers for a vector whose only bits are at or past
the number of documents, although no key lists a document then. -/
namespace DocStore

def PostingBits.Strays (p : PostingBits) (key : Nat) : Prop :=
  ∃ vector, p.vector key = .ok vector ∧
    ∃ i, p.documentCount ≤ i ∧ Word.hasBit (vector.getD (i / 64) 0) (i % 64) = true

namespace Postings

/-- What is stored for a key has a bit that stands for no document. Lists have no bits, and their
entries are checked when they are decoded. -/
def Strays : Postings → Nat → Prop
  | list _, _ => False
  | bits p, key => p.Strays key

def keysBetween (p : Postings) (first last : Nat) : Finset Nat :=
  (Finset.range p.keys).filter fun key => first ≤ key ∧ key ≤ last

theorem mem_keysBetween {p : Postings} {first last key : Nat} :
    key ∈ p.keysBetween first last ↔ key < p.keys ∧ first ≤ key ∧ key ≤ last := by
  rw [keysBetween, Finset.mem_filter, Finset.mem_range]

end Postings

namespace PostingBits

variable {p : PostingBits} {documents key : Nat} {read : Nat → Nat → Nat}

def Filled (documents : Nat) (read : Nat → Nat → Nat) (key : Nat) : Prop :=
  ∃ i, i / 64 < wordCount documents ∧ hasBit read key i = true

theorem getD_vector (i : Nat) : Word.hasBit (((List.range (wordCount documents)).map
      fun index => UInt64.ofNat (read key index)).getD (i / 64) 0) (i % 64) = true ↔
    i / 64 < wordCount documents ∧ hasBit read key i = true := by
  rw [List.getD_eq_getElem?_getD, List.getElem?_map]
  by_cases within : i / 64 < wordCount documents
  · simp [within, hasBit]
  · rw [List.getElem?_eq_none (by simpa using within)]
    simp [within, Word.hasBit_zero]

/-- A vector has a bit when its key lists a document, and when a bit strays. -/
theorem filled_iff (sound : p.Sound documents read) (inside : key < p.keys) :
    Filled documents read key ↔ bucket p.keys documents read key ≠ [] ∨ p.Strays key := by
  constructor
  · rintro ⟨i, within, bit⟩
    by_cases below : i < documents
    · exact Or.inl (List.ne_nil_of_mem (mem_bucket.mpr ⟨inside, below, bit⟩))
    · have past : p.documentCount ≤ i := by
        rw [sound.documentCount]
        exact Nat.le_of_not_lt below
      exact Or.inr ⟨_, vector_eq sound inside, i, past, (getD_vector i).mpr ⟨within, bit⟩⟩
  · rintro (some | ⟨vector, stored, i, _, bit⟩)
    · obtain ⟨i, member⟩ := List.exists_mem_of_ne_nil _ some
      obtain ⟨_, below, bit⟩ := mem_bucket.mp member
      exact ⟨i, div_lt_wordCount below, bit⟩
    · obtain rfl := Except.ok.inj ((vector_eq sound inside).symm.trans stored)
      exact ⟨i, (getD_vector i).mp bit⟩

theorem uniteKey_found {state answer : Bool × ArraySet} (sound : p.Sound documents read)
    (inside : key < p.keys) (united : p.uniteKey state key = .ok answer) :
    answer.1 = true ↔ state.1 = true ∨ Filled documents read key := by
  rw [uniteKey, vector_eq sound inside, ok_bind] at united
  by_cases filled : Filled documents read key
  · rw [if_pos (any_vector_iff.mpr filled)] at united
    split at united
    · cases united
      simp [filled]
    · cases united
  · rw [if_neg (mt any_vector_iff.mp filled)] at united
    cases united
    simp [filled]

theorem foldlM_found {keys : List Nat} {state answer : Bool × ArraySet}
    (sound : p.Sound documents read) (inside : ∀ key ∈ keys, key < p.keys)
    (united : keys.foldlM p.uniteKey state = .ok answer) :
    answer.1 = true ↔ state.1 = true ∨ ∃ key ∈ keys, Filled documents read key := by
  induction keys generalizing state with
  | nil =>
    cases united
    simp
  | cons key rest ih =>
    rw [List.foldlM_cons] at united
    obtain ⟨next, first, others⟩ := bind_eq_ok.mp united
    rw [ih (fun later member => inside later (List.mem_cons_of_mem _ member)) others,
      uniteKey_found sound (inside key List.mem_cons_self) first, or_assoc, List.exists_mem_cons_iff]

/-- A lookup finds something just if one of the vectors has a bit. -/
theorem Sound.found {dest : ArraySet} {answer : Bool × ArraySet} {first last : Nat}
    (sound : p.Sound documents read)
    (united : (Postings.bits p).uniteBetween dest first last = .ok answer) :
    answer.1 = true ↔
      ∃ key ∈ (Postings.bits p).keysBetween first last, Filled documents read key := by
  simp only [Postings.mem_keysBetween]
  rw [Postings.uniteBetween] at united
  split at united
  · rename_i none
    cases united
    simp only [Bool.false_eq_true, false_iff]
    rintro ⟨key, between, _⟩
    omega
  · rename_i some
    simp only [Postings.keys] at some united ⊢
    rw [subSizes_of_le (by omega), ok_bind, uniteBetween] at united
    split at united
    · rename_i flat
      cases united
      simp only [Bool.false_eq_true, false_iff]
      rintro ⟨key, _, i, within, _⟩
      have := sound.width
      omega
    · have between : ∀ key, key ∈ List.range' first (min last (p.keys - 1) + 1 - first) ↔
          key < p.keys ∧ first ≤ key ∧ key ≤ last := by
        intro key
        rw [List.mem_range'_1]
        omega
      rw [foldlM_found sound (fun key listed => ((between key).mp listed).1) united]
      simp only [between, Bool.false_eq_true, false_or]

end PostingBits

namespace Postings

variable {p : Postings} {documents first last : Nat} {dest : ArraySet} {v w : View}

/-- The keys list documents, and a lookup finds something just if one of its keys lists a document
or has a bit that strays. -/
structure Tells (p : Postings) (documents : Nat) (bucket : Nat → List Nat) : Prop where
  lists : p.Lists documents False bucket
  found : ∀ (dest : ArraySet) (first last : Nat) (answer : Bool × ArraySet),
    dest.Over documents → p.uniteBetween dest first last = .ok answer →
      (answer.1 = true ↔ ∃ key ∈ p.keysBetween first last, bucket key ≠ [] ∨ p.Strays key)

theorem tells_list {p : PostingList} {offset document : Nat → Nat}
    (sound : p.Sound documents offset document) :
    (list p).Tells documents (PostingList.bucket p.keys offset document) where
  lists := sound.lists False
  found dest first last answer sized united := by
    obtain ⟨_, same, added⟩ := sound.unites True sized.roomy first last
    obtain rfl := Except.ok.inj (same.symm.trans united)
    simp only [added.found trivial, mem_keysBetween, Strays, or_false]
    constructor
    · rintro ⟨i, key, lower, upper, member⟩
      exact ⟨key, ⟨(PostingList.mem_bucket.mp member).1, lower, upper⟩, List.ne_nil_of_mem member⟩
    · rintro ⟨key, ⟨_, lower, upper⟩, some⟩
      obtain ⟨i, member⟩ := List.exists_mem_of_ne_nil _ some
      exact ⟨i, key, lower, upper, member⟩

theorem tells_bits {p : PostingBits} {read : Nat → Nat → Nat} (sound : p.Sound documents read) :
    (bits p).Tells documents (PostingBits.bucket p.keys documents read) where
  lists := sound.lists False.elim
  found dest first last answer _ united := by
    rw [sound.found united]
    refine exists_congr fun key => and_congr_right fun between => ?_
    exact PostingBits.filled_iff sound (mem_keysBetween.mp between).1

/-- Decoded postings tell of stray bits, and of nothing else that no key lists. -/
theorem tells_of_decode (small : documents + 63 < sizeLimit)
    (accepted : (decode documents).runOn v = (.ok p, w)) : ∃ bucket, p.Tells documents bucket := by
  have meets : Meets (decode documents) v (fun p _ => ∃ bucket, p.Tells documents bucket)
      fun _ _ => True := by
    apply decode_meets_forms small
    · exact fun _ _ _ _ sound => ⟨_, tells_list sound⟩
    · exact fun _ _ _ sound => ⟨_, tells_bits sound⟩
    · exact fun _ _ => trivial
  exact meets.ok_of_run accepted

/-- Whatever bytes postings were decoded from, a lookup of a range of keys unites a set with just
the documents that the keys list. When it answers that it found none, the set is the one it was
given; that it found some, it answers just if a key lists a document or has a bit that strays. -/
theorem uniteBetween_of_decode (accepted : (decode documents).runOn v = (.ok p, w))
    (made : dest.Reachable) (sized : dest.size = documents) (first last : Nat) :
    ∃ (found : Bool) (united : ArraySet) (listed : Nat → List Nat),
      p.uniteBetween dest first last = .ok (found, united) ∧
      (∀ key, p.documentsOf key (.all documents) = .ok (listed key)) ∧
      united.Sound ∧ united.size = documents ∧
      united.members =
        dest.members ∪ (p.keysBetween first last).biUnion (fun key => (listed key).toFinset) ∧
      (found = false → united = dest) ∧
      (found = true ↔ ∃ key ∈ p.keysBetween first last, listed key ≠ [] ∨ p.Strays key) := by
  obtain ⟨trimmed, small⟩ := made.sound
  rw [sized] at small
  have room : dest.Over documents := ⟨sized, trimmed⟩
  obtain ⟨bucket, lists, found⟩ := tells_of_decode small accepted
  obtain ⟨⟨flag, united⟩, ran, added⟩ := lists.uniteBetween dest first last room
  have size : united.size = documents := added.size.trans sized
  refine ⟨flag, united, bucket, ran, fun key => ?_, ⟨added.trimmed, size.symm ▸ small⟩, size, ?_,
    added.kept, found dest first last _ room ran⟩
  · rw [lists.documentsOf key _ (DocSet.legible_all small), List.filter_eq_self.mpr]
    intro i member
    exact decide_eq_true (lists.below key i member)
  · ext i
    rw [ArraySet.mem_members added.trimmed, added.members, Finset.mem_union,
      ArraySet.mem_members trimmed, Finset.mem_biUnion]
    refine or_congr_right (exists_congr fun key => ?_)
    rw [mem_keysBetween, List.mem_toFinset, ← and_assoc]
    refine and_congr_left fun member => (and_iff_right ?_).symm
    exact Nat.lt_of_not_le fun past => by simp [lists.keys key past] at member

/-- The vectors of two keys over three documents. The first lists 0 and 2; the second has one bit,
past the documents. -/
def strayVectors : Bytes :=
  [2, 0, 0, 0] ++ [2, 0, 0, 0] ++ [1, 0, 0, 0] ++
    [5, 0, 0, 0, 0, 0, 0, 0] ++ [8, 0, 0, 0, 0, 0, 0, 0]

theorem uniteBetween_of_decode_twoKeys : ∃ p w dest united,
    (decode 3).runOn (View.ofBytes strayVectors) = (.ok p, w) ∧
      ArraySet.ofList 3 [1] = .ok dest ∧ p.uniteBetween dest 0 9 = .ok (true, united) ∧
      united.members = {0, 1, 2} := by
  obtain ⟨p, w, accepted, between, first, second⟩ : ∃ p w,
      (decode 3).runOn (View.ofBytes strayVectors) = (.ok p, w) ∧ p.keysBetween 0 9 = {0, 1} ∧
        p.documentsOf 0 (.all 3) = .ok [0, 2] ∧ p.documentsOf 1 (.all 3) = .ok [] :=
    ⟨_, _, rfl, by decide +kernel, by decide +kernel, by decide +kernel⟩
  obtain ⟨dest, made, sized, before⟩ : ∃ dest,
      ArraySet.ofList 3 [1] = .ok dest ∧ dest.size = 3 ∧ dest.members = {1} :=
    ⟨_, rfl, rfl, by decide +kernel⟩
  obtain ⟨found, united, listed, ran, lists, _, _, members, _, flag⟩ :=
    uniteBetween_of_decode accepted (.ofList made) sized 0 9
  have zero : listed 0 = [0, 2] := Except.ok.inj ((lists 0).symm.trans first)
  have one : listed 1 = [] := Except.ok.inj ((lists 1).symm.trans second)
  have some : found = true := flag.mpr ⟨0, by simp [between], Or.inl (by simp [zero])⟩
  refine ⟨p, w, dest, united, accepted, made, some ▸ ran, ?_⟩
  rw [members, before, between, Finset.biUnion_insert, Finset.singleton_biUnion, zero, one]
  decide

/-- A range whose keys list no document is answered to have some, when a bit strays. -/
theorem strayBit_found : ∃ p w dest, (decode 3).runOn (View.ofBytes strayVectors) = (.ok p, w) ∧
    ArraySet.allocate 3 = .ok dest ∧ p.keysBetween 1 1 = {1} ∧
      p.documentsOf 1 (.all 3) = .ok [] ∧ p.uniteBetween dest 1 1 = .ok (true, dest) :=
  ⟨_, _, _, rfl, rfl, by decide +kernel, by decide +kernel, by decide +kernel⟩

end Postings

end DocStore
