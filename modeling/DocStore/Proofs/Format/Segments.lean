import DocStore.Format.Segment
import DocStore.Proofs.Dictionary.Decoding
import DocStore.Proofs.Format.Payloads
import DocStore.Proofs.Index.Filter
import DocStore.Proofs.Index.Ranks
import DocStore.Proofs.Postings.Decoding

/-! Segments: from arbitrary bytes every structure that is accepted can be used, and a region of
written segments is split into just these. -/
namespace DocStore

def FilterIndex.Usable (index : FilterIndex) (documents : Nat) : Prop :=
  ∃ passes, index.Answers documents False passes

def Segment.Usable (documents : Nat) : Segment → Prop
  | .payloads listed => listed.Stored
  | .filter index => index.Usable documents
  | .sort index => index.Safe
  | .full index order => index.Usable documents ∧ order.Safe

namespace Segment

variable {v : View} {documents : Nat} {kind : SegmentKind}

theorem decodeName_meets {post : String → View → Prop} {refused : FormatError → View → Prop}
    (read : ∀ name w, post name w) (refusal : ∀ e w, refused e w) :
    Meets decodeName v post refused := by
  unfold decodeName Decoder.counted
  rw [Meets.bind, Meets.bind]
  refine Decoder.uint32_meets (fun v₁ _ _ => ?_) (fun _ e => refusal e _)
  refine Decoder.slice_meets (fun stored v₂ _ _ _ _ _ => ?_) (fun _ e => refusal e _)
  split
  · exact read _ _
  · exact refusal _ _

theorem decodeIndex_meets {post : Segment → View → Prop} {refused : FormatError → View → Prop}
    (small : documents + 63 < sizeLimit)
    (read : ∀ (segment : Segment) w, segment.Usable documents → post segment w)
    (refusal : ∀ e w, refused e w) : Meets (decodeIndex kind documents) v post refused := by
  unfold decodeIndex
  rw [Meets.bind]
  refine decodeName_meets (fun name v₁ => ?_) refusal
  rw [Meets.bind]
  refine Dictionary.decode_meets (fun dictionary v₂ safe => ?_) refusal
  dsimp only
  by_cases other : some dictionary.kind ≠ kind.dictionaryKind?
  · rw [if_pos other, Meets.bind]
    exact refusal _ _
  rw [if_neg other, Meets.bind]
  refine Postings.decode_meets small (fun postings bucket v₃ lists => ?_) refusal
  by_cases apart : postings.keys ≠ dictionary.size
  · rw [if_pos apart, Meets.bind]
    exact refusal _ _
  rw [if_neg apart]
  have usable : FilterIndex.Usable ⟨name, dictionary, postings⟩ documents :=
    ⟨_, FilterIndex.answers_reaches safe lists⟩
  by_cases sorts : kind.isSort = true
  · rw [if_pos sorts, Meets.bind]
    refine SortIndex.decode_meets (fun sort _ v₄ _ same _ _ ranks => ?_) refusal
    have safe : sort.Safe := SortIndex.safe_of_ranked ranks.ranked (same ▸ lists)
    by_cases other : sort.documents ≠ documents
    · rw [if_pos other, Meets.bind]
      exact refusal _ _
    rw [if_neg other, Meets.pure]
    refine read _ v₄ ?_
    split
    · exact ⟨usable, safe⟩
    · exact safe
  · rw [if_neg sorts, Meets.pure]
    exact read _ v₃ usable

theorem decodeBody_meets {post : Segment → View → Prop} {refused : FormatError → View → Prop}
    (small : documents + 63 < sizeLimit)
    (read : ∀ (segment : Segment) w, segment.Usable documents → post segment w)
    (refusal : ∀ e w, refused e w) : Meets (decodeBody kind documents) v post refused := by
  unfold decodeBody
  split
  · rw [Meets.bind]
    exact Payloads.decode_meets (fun payloads w stored => read (.payloads payloads) w stored) refusal
  · exact decodeIndex_meets small read refusal

end Segment

namespace RawSegment

variable {v : View} {documents : Nat}

theorem ends_of_meets {α : Type} {decoder : Decoder α} {post : α → Prop}
    (meets : Meets decoder v (fun a _ => post a) fun _ _ => True) :
    Ends (decoder.runOn v).1 post := by
  unfold Meets at meets
  unfold Decoder.runOn
  split at meets
  · rename_i known
    exact known ▸ Ends.ok meets
  · rename_i known
    exact known ▸ Ends.refused _
  · exact meets.elim

theorem decode_ends (small : documents + 63 < sizeLimit) (raw : RawSegment) :
    Ends (raw.decode documents) (Segment.Usable documents) := by
  have body : Ends ((Segment.decodeBody raw.kind documents).runOn raw.body).1 _ :=
    ends_of_meets (Segment.decodeBody_meets small (fun _ _ usable => usable) fun _ _ => trivial)
  unfold decode
  split
  · rename_i segment rest known
    rw [known] at body
    rcases body with ⟨_, refused⟩ | ⟨_, accepted, usable⟩
    · contradiction
    · cases accepted
      split
      · exact Ends.ok usable
      · exact Ends.refused _
  · rename_i failure rest known
    rw [known] at body
    rcases body with ⟨e, refused⟩ | ⟨_, accepted, _⟩
    · cases refused
      exact Ends.refused e
    · contradiction

/-- What is split off is as long as 32 bits can tell. -/
theorem decodeNext_ends (v : View) :
    Ends (decodeNext.runOn v).1 fun raw => raw.body.rest.length + 4 < 2 ^ 32 := by
  refine ends_of_meets ?_
  unfold decodeNext
  rw [Meets.bind, Decoder.position, Meets.bind, Meets.get, Meets.pure, Meets.bind]
  refine Decoder.uint32_meets (fun v₁ enough _ => ?_) (fun _ e => trivial)
  have told := Bytes.value_lt (v.rest.take 4)
  rw [List.length_take, Nat.min_eq_left enough] at told
  dsimp only
  by_cases short : Bytes.value (v.rest.take 4) < 4
  · rw [if_pos short, Meets.bind]
    exact trivial
  rw [if_neg short, Meets.bind]
  refine Decoder.uint32_meets (fun v₂ _ _ => ?_) (fun _ e => trivial)
  split
  · exact trivial
  · rw [Meets.bind, Meets.lift (subSizes_of_le (Nat.not_lt.mp short)), Meets.bind]
    refine Decoder.slice_meets (fun body v₃ _ _ size start _ => ?_) fun _ _ => trivial
    rw [Meets.pure, View.length_rest, View.remaining, size, start]
    omega

theorem splitFrom_ends (fuel : Nat) (region : View) :
    Ends (splitFrom fuel region) fun raws => ∀ raw ∈ raws, raw.body.rest.length + 4 < 2 ^ 32 := by
  have none : ∀ raw ∈ ([] : List RawSegment), raw.body.rest.length + 4 < 2 ^ 32 :=
    fun _ inside => absurd inside List.not_mem_nil
  induction fuel generalizing region with
  | zero =>
    unfold splitFrom
    split <;> exact Ends.ok none
  | succ fuel ih =>
    unfold splitFrom
    by_cases done : region.remaining = 0
    · rw [if_pos done]
      exact Ends.ok none
    rw [if_neg done]
    have next := decodeNext_ends region
    cases known : decodeNext.runOn region with
    | mk result rest =>
      rw [known] at next
      rcases next with ⟨e, rfl⟩ | ⟨segment, rfl, told⟩
      · exact Ends.refused e
      · exact (ih rest).bind fun segments others =>
          Or.inr ⟨_, rfl, List.forall_mem_cons.mpr ⟨told, others⟩⟩

theorem split_ends {region : View} (start : region.start < sizeLimit) :
    Ends (split region) fun raws => ∀ raw ∈ raws, raw.body.rest.length + 4 < 2 ^ 32 := by
  unfold split View.setPosition
  rw [addSizes_of_lt start]
  exact splitFrom_ends _ _

end RawSegment

end DocStore
