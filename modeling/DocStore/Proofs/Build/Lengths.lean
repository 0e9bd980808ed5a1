import DocStore.Proofs.Build.Freezing
import DocStore.Proofs.Build.Pieces

/-! Lengths, counts and offsets of sealed databases. A body that is short enough for its own
length to be stored has only numbers that are stored whole; nothing keeps a body short, and the
region of a longer one cannot be split again. -/
namespace DocStore

open Piece

namespace Bytes

theorem value_ofUInt32_iff {n : Nat} : value (ofUInt32 n) = n ↔ n < 2 ^ 32 := by
  constructor
  · intro same
    have below := value_lt (ofUInt32 n)
    rwa [same, length_ofUInt32] at below
  · exact value_ofUInt32

theorem le_sum_of_mem_offsets {lengths : List Nat} {n : Nat} (inside : n ∈ offsets lengths) :
    n ≤ lengths.sum := by
  obtain ⟨k, below, rfl⟩ := List.getElem_of_mem inside
  rw [offsets_getElem below]
  exact sum_take_le lengths k

end Bytes

variable {edges : List Edge}

theorem edgeSpan_le (edges : List Edge) : edgeSpan edges ≤ 256 := by
  unfold edgeSpan
  split
  · exact Nat.zero_le _
  · rename_i edge rest
    have top := ((edge :: rest).getLastD edge).byte.toNat_lt
    omega

theorem kept_edgeTablePieces (children : ∀ edge ∈ edges, edge.child < 2 ^ 32)
    (short : (edgeTableBytes edges).2.length < 2 ^ 32) : Kept (edgeTablePieces edges) := by
  rw [← join_edgeTablePieces] at short
  unfold edgeTablePieces at *
  split at short
  · exact kept_nil
  · exact kept_other.mpr (kept_number.mpr ⟨children _ List.mem_cons_self, kept_nil⟩)
  · rename_i first rest _
    dsimp only at short ⊢
    by_cases dense : 5 + edgeSpan (first :: rest) * 4 < 4 + (first :: rest).length * 5
    · -- A dense table has an entry for each byte in between, of which there are at most 256.
      rw [if_pos dense]
      have span := edgeSpan_le (first :: rest)
      refine kept_other.mpr (kept_number.mpr ⟨by omega, kept_table.mpr fun n inside => ?_⟩)
      obtain ⟨k, _, rfl⟩ := List.mem_map.mp inside
      exact slotOf_lt children _
    · rw [if_neg dense] at short ⊢
      simp only [join_number, join_other, List.length_append, List.length_map] at short
      refine kept_number.mpr ⟨by omega, kept_other.mpr (kept_table.mpr fun n inside => ?_)⟩
      obtain ⟨edge, listed, rfl⟩ := List.mem_map.mp inside
      exact children edge listed

theorem kept_nodePieces {label : Bytes} {hasValue : Bool} {count : Nat}
    (children : ∀ edge ∈ edges, edge.child < 2 ^ 32) (counted : count < 2 ^ 32)
    (short : (nodeBytes label hasValue count edges).length < 2 ^ 32) :
    Kept (nodePieces label hasValue count edges) := by
  rw [← join_nodePieces] at short
  unfold nodePieces at *
  rw [List.cons_append, List.cons_append, join_other, join_number, join_append,
    join_edgeTablePieces] at short
  simp only [List.length_append] at short
  rw [List.cons_append, List.cons_append, kept_other, kept_number, kept_append]
  refine ⟨counted, ?_, kept_edgeTablePieces children (by omega)⟩
  cases bare : label.isEmpty with
  | true => exact kept_nil
  | false =>
    simp only [bare, Bool.false_eq_true, if_false, join_counted, Bytes.counted,
      List.length_append] at short
    exact kept_counted.mpr (by omega)

-- By recursion on the tree. Children stand before their parents, so that each offset is below
-- the length of what has been written.
mutual

theorem Trie.kept_pieces (t : Trie) (start : Nat)
    (short : start + (t.layout start).1.length < 2 ^ 32) : Kept (t.pieces start) := by
  match t with
  | .node label hasValue branches =>
    have count := (Trie.node label hasValue branches).count_le_layout start
    simp only [Trie.count, Trie.layout, List.length_append] at count short
    have children := branches.child_lt start
    rw [Trie.pieces, kept_append]
    constructor
    · exact branches.kept_pieces start (by omega)
    · refine kept_nodePieces (fun edge inside => ?_) (by omega) (by omega)
      have := children edge inside
      omega

theorem Branches.kept_pieces (b : Branches) (start : Nat)
    (short : start + (b.layout start).1.length < 2 ^ 32) : Kept (b.pieces start) := by
  match b with
  | .nil => exact kept_nil
  | .cons byte child rest =>
    simp only [Branches.layout, List.length_append] at short
    rw [Branches.pieces, kept_append]
    constructor
    · exact child.kept_pieces start (by omega)
    · exact rest.kept_pieces _ (by omega)

end

namespace ValueSet

variable {s : ValueSet}

theorem uniformLength?_le (s : ValueSet) : s.uniformLength?.getD 0 ≤ s.values.flatten.length := by
  unfold uniformLength?
  split
  · exact Nat.zero_le _
  · rename_i first rest known
    rw [known, List.flatten_cons, List.length_append]
    split
    · exact Nat.le_add_right _ _
    · exact Nat.zero_le _

/-- The numbers of a short dictionary are stored whole. -/
theorem kept_pieces {kind : DictionaryKind} (ascending : s.values.Pairwise (· < ·))
    (short : (s.form kind).length < 2 ^ 32) : Kept (s.pieces kind) := by
  have size : s.size < 2 ^ 32 := by
    have := Dictionary.size_le_form ascending kind
    omega
  cases kind with
  | fixed =>
    have width := s.uniformLength?_le
    simp only [form, fixedForm, List.length_append] at short
    simp only [pieces, kept_number, kept_other]
    exact ⟨by decide, size, by omega, kept_nil⟩
  | varied =>
    simp only [form, variableForm, List.length_append] at short
    simp only [pieces, List.cons_append, kept_number, kept_append, kept_other]
    refine ⟨by decide, size, kept_table.mpr fun n inside => ?_, kept_nil⟩
    have total := Bytes.le_sum_of_mem_offsets inside
    rw [← List.length_flatten] at total
    omega
  | trie =>
    rw [form, Dictionary.length_trieForm, Dictionary.nodesOf] at short
    unfold pieces
    cases empty : s.isEmpty with
    | true =>
      simp only [if_true, kept_number]
      exact ⟨by decide, size, by decide, by decide, kept_nil⟩
    | false =>
      rw [empty] at short
      simp only [Bool.false_eq_true, if_false, kept_number] at short ⊢
      have root := (Trie.ofSorted s.values).root_lt 0
      exact ⟨by decide, size, by omega, by omega, Trie.kept_pieces _ 0 (by omega)⟩

end ValueSet

namespace PostingsBuilder

variable {b : PostingsBuilder} {encoding : PostingsEncoding} {stored : List Piece}

/-- The numbers of short postings are stored whole. -/
theorem kept_pieces (keys : b.keys < 2 ^ 32) (small : b.documents < 2 ^ 32)
    (below : ∀ listed ∈ b.buckets.toList, ∀ i ∈ listed, i < b.documents)
    (made : b.pieces encoding = .ok stored) (short : (join stored).length < 2 ^ 32) :
    Kept stored := by
  have normal : b.normalize.keys = b.keys := by simp [PostingsBuilder.keys, normalize]
  cases encoding with
  | list =>
    have formed : join stored = b.normalize.listForm := by
      have same := b.join_pieces .list
      rw [made] at same
      exact (Except.ok.inj same).symm
    rw [formed, length_listForm, pairs] at short
    cases made
    simp only [List.cons_append, kept_number, kept_append, normal]
    refine ⟨by decide, keys, kept_table.mpr fun n inside => ?_, kept_table.mpr fun n inside => ?_⟩
    · have total := Bytes.le_sum_of_mem_offsets inside
      rw [← List.length_flatten] at total
      omega
    · obtain ⟨listed, member, inside⟩ := List.mem_flatten.mp inside
      exact Nat.lt_trans ((listed_normalize below listed member).2 n inside) small
  | bits =>
    have words := @wordsFor_eq b.documents (by unfold sizeLimit; omega)
    rw [pieces, words] at made
    cases made
    simp only [kept_number, kept_other, normal]
    refine ⟨by decide, keys, ?_, kept_nil⟩
    unfold wordCount
    omega

end PostingsBuilder

namespace Column

variable {c : Column} {documents : Nat} {made : List Piece}

theorem rankOf_lt (sealable : c.Sealable documents)
    (short : (c.values.form c.indexing.dictionaryKind).length < 2 ^ 32) (document : Nat) :
    c.rankOf document < 2 ^ 32 := by
  have same : c.rankOf document = (c.rank document).getD SortIndex.noRank := rfl
  cases known : c.rank document with
  | none =>
    rw [same, known]
    decide
  | some key =>
    rw [same, known]
    exact Nat.lt_trans (rank_lt sealable short known).2.2 (by decide)

/-- The numbers of a short body are stored whole. -/
theorem kept_pieces (sealable : c.Sealable documents) (formed : c.pieces documents = .ok made)
    (short : (join made).length < 2 ^ 32) : Kept made := by
  unfold pieces indexPieces at formed
  obtain ⟨b, collect, collected⟩ := collect_eq_ok sealable.content
  simp only [collect, ok_bind, Option.elim_none] at formed
  cases chosen : b.choice with
  | error cause =>
    rw [chosen] at formed
    contradiction
  | ok encoding =>
    simp only [chosen, lift_ok, ok_bind] at formed
    cases stored : b.pieces encoding with
    | error cause =>
      rw [stored] at formed
      contradiction
    | ok listed =>
      simp only [stored, lift_ok, ok_bind, pure_eq_ok, Except.ok.injEq] at formed
      subst formed
      simp only [join_append, join_counted, Bytes.counted, List.length_append,
        ValueSet.join_pieces] at short
      have dictionary : (c.values.form c.indexing.dictionaryKind).length < 2 ^ 32 := by omega
      have size := size_lt sealable dictionary
      have few : documents < 2 ^ 32 := Nat.lt_of_le_of_lt sealable.small (by decide)
      simp only [kept_append]
      refine ⟨⟨kept_counted.mpr (by omega), ?_, ?_⟩, ?_⟩
      · exact ValueSet.kept_pieces sealable.ascending dictionary
      · exact PostingsBuilder.kept_pieces (collected.keys ▸ Nat.lt_trans size (by decide))
          (collected.documents ▸ few) (Collected.below sealable.content collected) stored (by omega)
      · split
        · refine kept_number.mpr ⟨few, kept_table.mpr fun n inside => ?_⟩
          obtain ⟨document, _, rfl⟩ := List.mem_map.mp inside
          exact rankOf_lt sealable dictionary document
        · exact kept_nil

end Column

theorem exists_of_mapM {α β δ : Type} {f : α → Except δ β} {items : List α} {answers : List β}
    (done : items.mapM f = .ok answers) : ∀ a ∈ items, ∃ b, f a = .ok b := by
  induction items generalizing answers with
  | nil => exact fun _ inside => absurd inside List.not_mem_nil
  | cons a rest ih =>
    rw [List.mapM_cons] at done
    obtain ⟨b, first, done⟩ := bind_eq_ok.mp done
    obtain ⟨others, later, _⟩ := bind_eq_ok.mp done
    exact List.forall_mem_cons.mpr ⟨⟨b, first⟩, ih later⟩

theorem kept_segment {kind : SegmentKind} {body : List Piece} :
    Kept (Segment.pieces kind body) ↔ (join body).length + 4 < 2 ^ 32 ∧ Kept body := by
  rw [Segment.pieces, kept_number, kept_number]
  refine and_congr_right fun _ => and_iff_right ?_
  cases kind <;> decide

theorem Payloads.kept_pieces {payloads : List Bytes} :
    Kept (pieces payloads) ↔ payloads.length < 2 ^ 32 :=
  kept_number.trans (and_iff_left kept_nil)

namespace RawSegment

variable {region : View} {kind : SegmentKind} {body rest : Bytes}

/-- Nothing is split off where a length below that of a kind stands. -/
theorem decodeNext_stuck {v : View} (low : Bytes.value (v.rest.take 4) < 4) :
    Meets decodeNext v (fun _ _ => False) fun _ _ => True := by
  unfold decodeNext
  rw [Meets.bind, Decoder.position, Meets.bind, Meets.get, Meets.pure, Meets.bind]
  refine Decoder.uint32_meets (fun w _ _ => ?_) fun _ _ => trivial
  rw [if_pos low, Meets.bind]
  exact trivial

theorem splitFrom_stuck {fuel : Nat} (more : region.remaining ≠ 0)
    (low : Bytes.value (region.rest.take 4) < 4) :
    ∃ e, splitFrom (fuel + 1) region = .error (.refused e) := by
  have stuck := decodeNext_stuck low
  unfold splitFrom
  rw [if_neg more]
  rcases next : decodeNext.runOn region with ⟨(e | cause) | _, _⟩ <;>
    simp only [Meets, Decoder.runOn] at stuck next <;> rw [next] at stuck
  · exact ⟨e, rfl⟩
  · exact stuck.elim
  · exact stuck.elim

/-- A region is refused where such a length stands behind its first segment. -/
theorem split_stuck (fits : body.length + 4 < 2 ^ 32) (start : region.start < sizeLimit)
    (here : region.bytes = Segment.form kind body ++ rest) (more : rest ≠ [])
    (low : Bytes.value (rest.take 4) < 4) : ∃ e, split region = .error (.refused e) := by
  have behind : ∀ (fuel : Nat) (v : View), v.rest = Segment.form kind body ++ rest → 2 ≤ fuel →
      ∃ e, splitFrom fuel v = .error (.refused e) := by
    intro fuel v whole enough
    obtain ⟨fuel, rfl⟩ := Nat.exists_eq_add_of_le' enough
    have filled : v.remaining ≠ 0 := by
      rw [← View.length_rest, whole, Segment.form]
      simp
    obtain ⟨raw, later, ran, left, _⟩ := (decodeNext_reads fits).run_eq whole
    have unread : later.remaining ≠ 0 := by
      rw [← View.length_rest, left]
      exact fun none => more (List.length_eq_zero_iff.mp none)
    obtain ⟨e, refused⟩ := @splitFrom_stuck later fuel unread (left.symm ▸ low)
    refine ⟨e, ?_⟩
    unfold splitFrom
    rw [if_neg filled, ran]
    simp only [refused, error_bind]
  unfold split View.setPosition
  rw [addSizes_of_lt start]
  refine behind _ _ ((View.rest_eq_bytes (Nat.zero_min _)).trans here) ?_
  have count := congrArg List.length here
  rw [View.length_bytes, Segment.form, List.length_append, List.length_append,
    List.length_append, Bytes.length_ofUInt32, Bytes.length_ofUInt32] at count
  simp only [View.remaining, Nat.zero_min]
  omega

end RawSegment

namespace Builder

variable {b : Builder} {documents : List Document} {s : SealedDatabase} {made : List Piece}

def piecesOf (b : Builder) (c : Column) : List Piece := (c.pieces b.size).toOption.getD []

/-- A builder that can be sealed has a body for each column. -/
theorem pieces_of_frozen (frozen : b.freeze = .ok s) :
    ∀ c ∈ b.columns, c.pieces b.size = .ok (b.piecesOf c) := by
  intro c inside
  obtain ⟨segments, formed, _⟩ := bind_eq_ok.mp frozen
  obtain ⟨_, one⟩ := exists_of_mapM formed c inside
  obtain ⟨_, form, _⟩ := bind_eq_ok.mp one
  rw [Column.join_pieces] at form
  rw [piecesOf]
  cases known : c.pieces b.size with
  | error failure =>
    rw [known] at form
    contradiction
  | ok body => rfl

theorem form_of_frozen (frozen : b.freeze = .ok s) :
    ∀ c ∈ b.columns, c.form b.size = .ok (b.bodyOf c) ∧ b.bodyOf c = join (b.piecesOf c) := by
  intro c inside
  have formed : c.form b.size = .ok (join (b.piecesOf c)) := by
    rw [Column.join_pieces, pieces_of_frozen frozen c inside]
    rfl
  rw [bodyOf, formed]
  exact ⟨rfl, rfl⟩

theorem pieces_eq_ok (frozen : b.freeze = .ok s) :
    b.pieces = .ok (Segment.pieces .payload (Payloads.pieces b.payloads) ++
      (b.columns.map fun c => Segment.pieces c.indexing.segmentKind (b.piecesOf c)).flatten) := by
  rw [pieces, mapM_eq_ok (g := fun c => Segment.pieces c.indexing.segmentKind (b.piecesOf c))]
  · rfl
  · intro c inside
    rw [pieces_of_frozen frozen c inside]
    rfl

/-- Everything is stored whole just when the length of each segment is. -/
theorem kept_iff_short (stores : b.Stores documents) (frozen : b.freeze = .ok s)
    (known : b.pieces = .ok made) :
    Kept made ↔ ∀ w ∈ b.segments, w.2.length + 4 < 2 ^ 32 := by
  obtain rfl := Except.ok.inj (known.symm.trans (pieces_eq_ok frozen))
  have few : b.payloads.length < 2 ^ 32 :=
    Nat.lt_of_le_of_lt (stores.size.symm ▸ stores.limit) (by decide)
  simp only [kept_append, kept_segment, kept_flatten, List.forall_mem_map, segments,
    List.forall_mem_cons, Payloads.join_pieces]
  refine and_congr ?_ (forall₂_congr fun c inside => ?_)
  · exact and_iff_left (Payloads.kept_pieces.mpr few)
  · rw [(form_of_frozen frozen c inside).2]
    refine and_iff_left_of_imp fun short => ?_
    exact Column.kept_pieces (stores.size ▸ stores.sealable inside)
      (pieces_of_frozen frozen c inside) (by omega)

/-- Just short segments are split off the region again. -/
theorem split_iff_short (frozen : b.freeze = .ok s) :
    (∃ raws, RawSegment.split (.ofBytes s.region) = .ok raws ∧
      raws.map RawSegment.written = b.segments) ↔ ∀ w ∈ b.segments, w.2.length + 4 < 2 ^ 32 := by
  constructor
  · rintro ⟨raws, split, same⟩ w listed
    rw [← same] at listed
    obtain ⟨raw, inside, rfl⟩ := List.mem_map.mp listed
    rcases @RawSegment.split_ends (.ofBytes s.region) (by decide : 0 < sizeLimit) with
      ⟨e, refused⟩ | ⟨_, accepted, told⟩
    · rw [refused] at split
      contradiction
    · obtain rfl := Except.ok.inj (accepted.symm.trans split)
      exact told raw inside
  · intro short
    have written := freeze_of_formed fun c inside => (form_of_frozen frozen c inside).1
    obtain rfl := Except.ok.inj (frozen.symm.trans written)
    exact RawSegment.split_form short (View.bytes_ofBytes _) (by decide : 0 < sizeLimit)

/-- Whatever documents a database was sealed from: every length, count and offset that is written
in 32 bits keeps its value just when the length of each segment does, and just then the region is
split into the segments that were written. -/
theorem sealed_lengths (built : ∀ d ∈ documents, d.Built)
    (accepted : ofDocuments documents = .ok b) (frozen : b.freeze = .ok s) :
    RawSegment.formOf b.segments = s.region ∧ ∃ pieces, b.pieces = .ok pieces ∧
      join pieces = s.region ∧
      ((∀ w ∈ b.segments, w.2.length + 4 < 2 ^ 32) ↔ ∀ n ∈ numbers pieces, n < 2 ^ 32) ∧
      ((∀ w ∈ b.segments, w.2.length + 4 < 2 ^ 32) ↔
        ∀ n ∈ numbers pieces, Bytes.value (Bytes.ofUInt32 n) = n) ∧
      ((∀ w ∈ b.segments, w.2.length + 4 < 2 ^ 32) ↔
        ∃ raws, RawSegment.split (.ofBytes s.region) = .ok raws ∧
          raws.map RawSegment.written = b.segments) := by
  have known := pieces_eq_ok frozen
  have written := freeze_of_formed fun c inside => (form_of_frozen frozen c inside).1
  have joined := b.join_pieces
  rw [frozen, known] at joined
  have kept := kept_iff_short (stores_of_built built accepted) frozen known
  refine ⟨congrArg SealedDatabase.region (Except.ok.inj (written.symm.trans frozen)), _, known,
    congrArg SealedDatabase.region (Except.ok.inj joined.symm), kept.symm, ?_,
    (split_iff_short frozen).symm⟩
  simp only [Bytes.value_ofUInt32_iff]
  exact kept.symm

def tagged : Document := ⟨[⟨"tag", [1, 2], ⟨.full, .varied⟩⟩], some [7]⟩

/-- A small database stores its numbers whole, and is split into its two segments. -/
theorem sealed_lengths_tagged : tagged.Built ∧
    ∃ b s pieces raws, ofDocuments [tagged] = .ok b ∧ b.freeze = .ok s ∧ b.pieces = .ok pieces ∧
      (∀ n ∈ numbers pieces, Bytes.value (Bytes.ofUInt32 n) = n) ∧
      RawSegment.split (.ofBytes s.region) = .ok raws ∧
      raws.map RawSegment.written = b.segments := by
  have built : tagged.Built :=
    ⟨[.field "tag" (.bytes [1, 2]) ⟨.full, .varied⟩, .payload [7]], rfl⟩
  let b : Builder := ⟨[[7]], [⟨"tag", ⟨.full, .varied⟩, none, ⟨[[1, 2]]⟩, [(0, [1, 2])]⟩]⟩
  have accepted : ofDocuments [tagged] = .ok b := by decide +kernel
  have short : ∀ w ∈ b.segments, w.2.length + 4 < 2 ^ 32 := by decide +kernel
  cases frozen : b.freeze with
  | error failure =>
    have done : b.freeze.toOption.isSome = true := by decide +kernel
    rw [frozen] at done
    contradiction
  | ok s =>
    obtain ⟨_, pieces, known, _, _, whole, split⟩ :=
      sealed_lengths (List.forall_mem_singleton.mpr built) accepted frozen
    obtain ⟨raws, parted, same⟩ := split.mp short
    exact ⟨built, b, s, pieces, raws, accepted, frozen, known, whole.mp short, parted, same⟩

def bare (payload : Bytes) : Document := ⟨[], some payload⟩

/-- The segment of a payload of 4 GiB starts like one that ends where the payload starts. -/
theorem form_bare {payload : Bytes} (long : payload.length = 2 ^ 32) :
    Segment.form .payload (Payloads.form [payload]) =
      Segment.form .payload (Bytes.ofUInt32 1 ++ (Bytes.ofUInt64 0 ++ Bytes.ofUInt64 (2 ^ 32))) ++
        payload := by
  have length : (Payloads.form [payload]).length + 4 = 2 ^ 32 + 24 := by
    simp [Payloads.form, Bytes.offsets, Bytes.endOffsets, long]
  have cut : Bytes.ofUInt32 (2 ^ 32 + 24) = Bytes.ofUInt32 24 := by decide
  rw [Segment.form, length, cut]
  simp [Segment.form, Payloads.form, Bytes.offsets, Bytes.endOffsets, long]

/-- Nothing keeps a segment short: a document with a payload of 4 GiB is accepted and sealed, the
length of its segment is stored as 24, and the region cannot be split again. -/
theorem oversized_length_cut : (bare (List.replicate (2 ^ 32) 0)).Built ∧
    ∃ b s pieces, ofDocuments [bare (List.replicate (2 ^ 32) 0)] = .ok b ∧ b.freeze = .ok s ∧
      b.pieces = .ok pieces ∧ join pieces = s.region ∧
      2 ^ 32 + 24 ∈ numbers pieces ∧ Bytes.value (s.region.take 4) = 24 ∧
      ∃ e, RawSegment.split (.ofBytes s.region) = .error (.refused e) := by
  have size : (List.replicate (2 ^ 32) (0 : UInt8)).length = 2 ^ 32 := List.length_replicate
  have zeros : Bytes.value ((List.replicate (2 ^ 32) (0 : UInt8)).take 4) < 4 := by
    rw [List.take_replicate, Nat.min_eq_left (by decide)]
    decide
  -- Of the payload only its length and its first bytes matter.
  generalize List.replicate (2 ^ 32) (0 : UInt8) = payload at size zeros
  have whole := form_bare size
  have region : Segment.form .payload (Payloads.form [payload]) ++ [] = _ :=
    (List.append_nil _).trans whole
  refine ⟨⟨[.payload payload], rfl⟩, ⟨[payload], []⟩, ⟨1, 0, _⟩,
    Segment.pieces .payload (Payloads.pieces [payload]) ++ [], rfl, rfl, rfl, ?_, ?_, ?_, ?_⟩
  · rw [join_append, Segment.join_pieces, Payloads.join_pieces]
    rfl
  · have length : (join (Payloads.pieces [payload])).length + 4 = 2 ^ 32 + 24 := by
      rw [Payloads.join_pieces]
      simp [Payloads.form, Bytes.offsets, Bytes.endOffsets, size]
    rw [← length]
    exact List.mem_cons_self
  · change Bytes.value (List.take 4 (Segment.form .payload (Payloads.form [payload]) ++ [])) = 24
    rw [region]
    exact Bytes.value_ofUInt32 (by decide : 24 < 2 ^ 32)
  · refine RawSegment.split_stuck (by decide) (by decide : 0 < sizeLimit)
      ((View.bytes_ofBytes _).trans region) ?_ zeros
    rintro rfl
    exact absurd size (by decide)

end Builder

end DocStore
