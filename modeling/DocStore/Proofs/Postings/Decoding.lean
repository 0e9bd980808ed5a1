import DocStore.Proofs.Postings.BitForm
import DocStore.Proofs.Postings.Collecting
import DocStore.Proofs.Postings.ListForm

/-! Decoded postings: lists of existing documents from arbitrary bytes, and the pairs that were
collected from each of the stored forms. -/
namespace DocStore

variable {documents : Nat}

/-- Decoding leaves sound lists or sound vectors. -/
theorem Postings.decode_meets_forms {v : View} {post : Postings → View → Prop}
    {refused : FormatError → View → Prop} (small : documents + 63 < sizeLimit)
    (list : ∀ p offset document w, PostingList.Sound p documents offset document → post (.list p) w)
    (bits : ∀ p read w, PostingBits.Sound p documents read → post (.bits p) w)
    (refusal : ∀ e w, refused e w) : Meets (decode documents) v post refused := by
  unfold decode
  rw [Meets.bind, Decoder.position, Meets.bind, Meets.get, Meets.pure, Meets.bind]
  refine Decoder.uint32_meets (fun w _ _ => ?_) (fun _ e => refusal e _)
  split
  · rw [Meets.bind]
    exact PostingList.decode_meets list refusal
  · rw [Meets.bind]
    exact PostingBits.decode_meets small bits refusal
  · exact refusal _ _

theorem Postings.decode_meets {v : View} {post : Postings → View → Prop}
    {refused : FormatError → View → Prop} (small : documents + 63 < sizeLimit)
    (read : ∀ p bucket w, Lists p documents False bucket → post p w)
    (refusal : ∀ e w, refused e w) : Meets (decode documents) v post refused :=
  decode_meets_forms small (fun _ _ _ w sound => read _ _ w (sound.lists False))
    (fun _ _ w sound => read _ _ w (sound.lists False.elim)) refusal

namespace PostingsBuilder

variable {b : PostingsBuilder} {encoding : PostingsEncoding} {bytes : Bytes}

def Fits (b : PostingsBuilder) : PostingsEncoding → Prop
  | .list => b.keys < 2 ^ 32 ∧ b.normalize.pairs < 2 ^ 32
  | .bits => b.keys < 2 ^ 32

instance : (encoding : PostingsEncoding) → Decidable (b.Fits encoding)
  | .list => inferInstanceAs (Decidable (_ ∧ _))
  | .bits => inferInstanceAs (Decidable (_ < _))

theorem length_listForm (b : PostingsBuilder) :
    b.normalize.listForm.length = 12 + b.keys * 4 + b.normalize.pairs * 4 := by
  have count := length_normalize b
  unfold listForm pairs
  simp only [List.length_append, Bytes.length_ofUInt32,
    Bytes.length_flatMap_width fun _ _ => Bytes.length_ofUInt32 _, Bytes.length_offsets,
    List.length_map, count]
  omega

/-- The numbers of a short form fit. -/
theorem fits_of_short (keys : b.keys < 2 ^ 32) (formed : b.form encoding = .ok bytes)
    (short : bytes.length < 2 ^ 32) : b.Fits encoding := by
  cases encoding with
  | bits => exact keys
  | list =>
    cases formed
    rw [length_listForm] at short
    constructor
    · exact keys
    · omega

section

variable (below : ∀ listed ∈ b.buckets.toList, ∀ i ∈ listed, i < b.documents)

include below

theorem listForm_decodes (short : ∀ listed ∈ b.buckets.toList, ∀ i ∈ listed, i < 2 ^ 32)
    (fits : b.Fits .list) :
    Decoder.Reads (Postings.decode b.documents) b.normalize.listForm fun q =>
      ∃ p offset document, q = .list p ∧ p.keys = b.keys ∧
        p.Sound b.documents offset document ∧ PostingList.bucket p.keys offset document = b.bucket := by
  have count := length_normalize b
  obtain ⟨keys, total⟩ := fits
  rw [← count] at keys
  have kept := fun listed inside => (listed_normalize below listed inside).2
  have stored : ∀ listed ∈ b.normalize.buckets.toList, ∀ i ∈ listed, i < 2 ^ 32 := by
    intro listed inside i member
    simp only [normalize, Array.toList_map, List.mem_map] at inside
    obtain ⟨collected, gathered, rfl⟩ := inside
    exact short collected gathered i (((eraseReps_mergeSort collected).2 i).mp member)
  unfold Postings.decode
  rw [listForm]
  simp only [List.append_assoc]
  refine Decoder.Reads.tagged (by decide) fun _ => ?_
  simp only [PostingsEncoding.ofCode?_code]
  rw [show b.normalize.keys = b.normalize.buckets.toList.length from rfl, ← List.append_assoc]
  refine (PostingList.decode_reads keys total kept stored).bind_last fun p written =>
    Decoder.Reads.pure ?_
  obtain ⟨size, offset, document, sound, same⟩ := written
  exact ⟨p, offset, document, rfl, size.trans count, sound, same⟩

theorem bitForm_decodes (width : wordCount b.documents < 2 ^ 32)
    (area : b.keys * wordCount b.documents * 8 < sizeLimit) (fits : b.Fits .bits) :
    Decoder.Reads (Postings.decode b.documents) (b.normalize.bitForm (wordCount b.documents))
      fun q => ∃ p read, q = .bits p ∧ p.keys = b.keys ∧ p.Sound b.documents read ∧
        p.Clean b.documents read ∧ PostingBits.bucket p.keys b.documents read = b.bucket := by
  have count := length_normalize b
  have keys : b.normalize.buckets.toList.length < 2 ^ 32 := count ▸ fits
  have small : b.documents + 63 < sizeLimit := by
    unfold wordCount at width
    unfold sizeLimit
    omega
  unfold Postings.decode
  rw [bitForm]
  simp only [List.append_assoc]
  refine Decoder.Reads.tagged (by decide) fun _ => ?_
  simp only [PostingsEncoding.ofCode?_code]
  rw [show b.normalize.keys = b.normalize.buckets.toList.length from rfl, ← List.append_assoc]
  refine (PostingBits.decode_reads small keys width
    (fun listed inside => (listed_normalize below listed inside).1)
    (fun listed inside => (listed_normalize below listed inside).2)
    (count.symm ▸ area)).bind_last fun p written => Decoder.Reads.pure ?_
  obtain ⟨size, read, sound, clean, same⟩ := written
  exact ⟨p, read, rfl, size.trans count, sound, clean, same⟩

end

/-- Written postings are read back. -/
theorem form_reads (small : b.documents ≤ 2 ^ 32)
    (below : ∀ listed ∈ b.buckets.toList, ∀ i ∈ listed, i < b.documents)
    (fits : b.Fits encoding) (formed : b.form encoding = .ok bytes) :
    Decoder.Reads (Postings.decode b.documents) bytes fun p =>
      p.keys = b.keys ∧ p.Lists b.documents True b.bucket := by
  cases encoding with
  | list =>
    cases formed
    have short := fun listed inside i member =>
      Nat.lt_of_lt_of_le (below listed inside i member) small
    refine (listForm_decodes below short fits).mono fun _ written => ?_
    obtain ⟨p, offset, document, rfl, size, sound, same⟩ := written
    exact ⟨size, same ▸ sound.lists True⟩
  | bits =>
    have width : wordCount b.documents < 2 ^ 27 := by
      unfold wordCount
      omega
    have area : b.keys * wordCount b.documents < 2 ^ 32 * 2 ^ 27 := Nat.mul_lt_mul'' fits width
    rw [form, wordsFor_eq (by unfold sizeLimit; omega)] at formed
    cases formed
    refine (bitForm_decodes below (by omega) (by unfold sizeLimit; omega) fits).mono
      fun _ written => ?_
    obtain ⟨p, read, rfl, size, sound, clean, same⟩ := written
    exact ⟨size, same ▸ sound.lists fun _ => clean⟩

end PostingsBuilder

end DocStore
