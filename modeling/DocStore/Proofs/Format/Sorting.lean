import DocStore.Proofs.Format.Segments
import DocStore.Proofs.Index.Coherence

/-! Sort indexes that are read from arbitrary bytes. Decoding bounds their ranks and documents and
does not compare the two, so an accepted index orders every set where they agree and not else. -/
namespace DocStore

theorem SortIndex.ranks_of_decode {name : String} {dictionary : Dictionary} {postings : Postings}
    {index : SortIndex} {v w : View}
    (ran : (decode name dictionary postings).runOn v = (.ok index, w)) :
    index.documents < 2 ^ 32 ∧ index.postings = postings ∧
      ∃ rank, index.Ranks index.documents rank := by
  refine @Decoder.post_of_ok _ v w _ (fun index => index.documents < 2 ^ 32 ∧
    index.postings = postings ∧ ∃ rank, index.Ranks index.documents rank) index
    (decode_meets ?_ fun _ _ => trivial) ran
  intro index rank _ _ same _ few ranks
  exact ⟨few, same, rank, ranks⟩

/-- Vectors are only read where their words can be counted. -/
theorem Postings.lists_of_decode {documents : Nat} {p : Postings} {v w : View}
    (ran : (decode documents).runOn v = (.ok p, w)) : ∃ bucket, p.Lists documents False bucket := by
  obtain ⟨position, v₁, _, ran⟩ := Decoder.bind_eq_ok.mp ran
  obtain ⟨tag, v₂, _, ran⟩ := Decoder.bind_eq_ok.mp ran
  split at ran
  · obtain ⟨postings, v₃, listed, ran⟩ := Decoder.bind_eq_ok.mp ran
    cases ran
    refine @Decoder.post_of_ok _ v₂ _ _ (fun postings => ∃ bucket,
      (list postings).Lists documents False bucket) postings
      (PostingList.decode_meets ?_ fun _ _ => trivial) listed
    intro postings offset document _ sound
    exact ⟨_, sound.lists False⟩
  · obtain ⟨postings, v₃, vectors, ran⟩ := Decoder.bind_eq_ok.mp ran
    cases ran
    have small : documents + 63 < sizeLimit := by
      obtain ⟨_, _, _, counting⟩ := Decoder.bind_eq_ok.mp vectors
      obtain ⟨_, _, _, counting⟩ := Decoder.bind_eq_ok.mp counting
      obtain ⟨_, _, counted, _⟩ := Decoder.bind_eq_ok.mp counting
      by_contra large
      rw [wordsFor, addSizes, if_neg large] at counted
      cases counted
    refine @Decoder.post_of_ok _ v₂ _ _ (fun postings => ∃ bucket,
      (bits postings).Lists documents False bucket) postings
      (PostingBits.decode_meets small ?_ fun _ _ => trivial) vectors
    intro postings read _ sound
    exact ⟨_, sound.lists False.elim⟩
  · cases ran

namespace Segment

variable {v w : View} {documents : Nat} {kind : SegmentKind} {segment : Segment}
  {index : SortIndex}

def sorting? : Segment → Option SortIndex
  | .sort index | .full _ index => some index
  | .payloads _ | .filter _ => none

theorem decodeIndex_sorting (ran : (decodeIndex kind documents).runOn v = (.ok segment, w))
    (sorts : segment.sorting? = some index) : documents < 2 ^ 32 ∧
      ∃ rank bucket, index.Ranks documents rank ∧ index.postings.Lists documents False bucket := by
  unfold decodeIndex at ran
  obtain ⟨name, v₁, _, ran⟩ := Decoder.bind_eq_ok.mp ran
  obtain ⟨dictionary, v₂, _, ran⟩ := Decoder.bind_eq_ok.mp ran
  obtain ⟨_, ran⟩ := Decoder.passed_of_ok ran
  obtain ⟨postings, v₃, posted, ran⟩ := Decoder.bind_eq_ok.mp ran
  obtain ⟨_, ran⟩ := Decoder.passed_of_ok ran
  dsimp only at ran
  split at ran
  · obtain ⟨sort, v₄, sorted, ran⟩ := Decoder.bind_eq_ok.mp ran
    obtain ⟨all, ran⟩ := Decoder.passed_of_ok ran
    have all := Decidable.not_not.mp all
    have same : index = sort := by
      split at ran
      · cases ran
        exact (Option.some.inj sorts).symm
      · cases ran
        exact (Option.some.inj sorts).symm
    subst same
    obtain ⟨few, posts, rank, ranks⟩ := SortIndex.ranks_of_decode sorted
    rw [all] at few ranks
    obtain ⟨bucket, lists⟩ := Postings.lists_of_decode posted
    exact ⟨few, rank, bucket, ranks, posts ▸ lists⟩
  · cases ran
    contradiction

end Segment

namespace RawSegment

variable {raw : RawSegment} {documents : Nat} {segment : Segment} {index : SortIndex}

theorem decode_sorting (accepted : raw.decode documents = .ok segment)
    (sorts : segment.sorting? = some index) : documents < 2 ^ 32 ∧
      ∃ rank bucket, index.Ranks documents rank ∧ index.postings.Lists documents False bucket := by
  unfold decode at accepted
  split at accepted
  · rename_i read rest ran
    split at accepted
    · cases accepted
      unfold Segment.decodeBody at ran
      split at ran
      · obtain ⟨payloads, _, _, same⟩ := Decoder.bind_eq_ok.mp ran
        cases same
        contradiction
      · exact Segment.decodeIndex_sorting ran sorts
    · contradiction
  · contradiction

/-- What ordering makes of an accepted segment, whoever wrote it. A set that is gathered is
listed once and in the order of its ranks. All sets are, just where so few documents are stored
that each of them is gathered, or where the postings agree with the ranks. -/
theorem decode_orders (accepted : raw.decode documents = .ok segment)
    (sorts : segment.sorting? = some index) :
    (∀ direction (docs : DocSet), docs.Within documents → index.gathers docs = true →
      index.Orders direction docs) ∧
    ((∀ direction (docs : DocSet), docs.Within documents → index.Orders direction docs) ↔
      documents * SortIndex.sparseFactor < index.rankCount ∨ index.Coherent documents) := by
  obtain ⟨few, rank, bucket, ranks, lists⟩ := decode_sorting accepted sorts
  have small : documents + 63 < sizeLimit := by
    unfold sizeLimit
    omega
  constructor
  · intro direction docs within gathers
    exact ranks.orders_of_gathers within gathers
  · exact SortIndex.Ranks.orders_iff small lists ranks

/-- A sort segment of a field `f` over one document, from its values, its postings as stored
numbers, and the stored rank of the document. -/
def overOne (values : List Bytes) (postings : List Nat) (rank : Nat) : RawSegment where
  kind := .fixedSort
  offset := 0
  body := View.ofBytes (Bytes.counted [102] ++ (ValueSet.ofList values).form .fixed ++
    postings.flatMap Bytes.ofUInt32 ++ Bytes.ofUInt32 1 ++ Bytes.ofUInt32 rank)

/-- The document has the rank three of nine values, and no value lists it. -/
def rankedUnlisted : RawSegment :=
  overOne ((List.range 9).map fun n => [UInt8.ofNat n]) (1 :: 9 :: List.replicate 10 0) 3

/-- The document has no rank, and the only value lists it. -/
def listedUnranked : RawSegment := overOne [[97]] [1, 1, 0, 1, 0] SortIndex.noRank

theorem exists_sorting {documents : Nat} {raw : RawSegment} {passes : SortIndex → Bool}
    (known : ((raw.decode documents).toOption.bind Segment.sorting?).any passes = true) :
    ∃ segment index, raw.decode documents = .ok segment ∧ segment.sorting? = some index ∧
      passes index = true := by
  cases accepted : raw.decode documents with
  | error _ =>
    rw [accepted] at known
    contradiction
  | ok segment =>
    rw [accepted] at known
    cases sorts : segment.sorting? with
    | none =>
      change (segment.sorting?).any passes = true at known
      rw [sorts] at known
      contradiction
    | some index =>
      change (segment.sorting?).any passes = true at known
      rw [sorts] at known
      exact ⟨segment, index, rfl, sorts, known⟩

/-- Nine values and one document are gathered, so that the postings do not matter. -/
theorem decode_orders_rankedUnlisted : ∃ segment index,
    rankedUnlisted.decode 1 = .ok segment ∧ segment.sorting? = some index ∧
      ∀ direction (docs : DocSet), docs.Within 1 → index.Orders direction docs := by
  obtain ⟨segment, index, accepted, sorts, few⟩ := @exists_sorting 1 rankedUnlisted
    (fun index => 1 * SortIndex.sparseFactor < index.rankCount) (by decide +kernel)
  refine ⟨segment, index, accepted, sorts, ?_⟩
  exact (decode_orders accepted sorts).2.mpr (Or.inl (of_decide_eq_true few))

/-- A document without a rank that is listed under a value comes twice: in the group of that value
and behind all groups. -/
theorem listedUnranked_comes_twice : ∃ segment index,
    listedUnranked.decode 1 = .ok segment ∧ segment.sorting? = some index ∧
      (DocSet.all 1).Within 1 ∧ ¬ index.Orders .ascending (.all 1) := by
  obtain ⟨segment, index, accepted, sorts, listed⟩ := @exists_sorting 1 listedUnranked
    (fun index => (index.groups .ascending (.all 1)).toOption = some [(0, [0])] ∧
      (index.unrankedOf (.all 1)).toOption = some [0]) (by decide +kernel)
  refine ⟨segment, index, accepted, sorts, DocSet.within_all (by decide), ?_⟩
  rintro ⟨groups, rest, grouped, single, distinct, _⟩
  rw [grouped, single] at listed
  obtain ⟨rfl, rfl⟩ : groups = [(0, [0])] ∧ rest = [0] := by simpa [Except.toOption] using listed
  exact absurd distinct (by decide)

end RawSegment

end DocStore
