import DocStore.Proofs.Format.Segments
import DocStore.Value.Basic

/-! Written segments: each is split off the region and read back as the indexes it was made of. -/
namespace DocStore

namespace Segment

variable {kind : SegmentKind} {name : String} {documents : Nat} {s : ValueSet}
  {b : PostingsBuilder} {stored : Bytes} {ranks : Nat → Nat}

def filters : Segment → List FilterIndex
  | .payloads _ | .sort _ => []
  | .filter index | .full index _ => [index]

def sorts : Segment → List SortIndex
  | .payloads _ | .filter _ => []
  | .sort index | .full _ index => [index]

structure Indexes (segment : Segment) (kind : SegmentKind) (name : String) (documents : Nat)
    (values : List Bytes) (bucket : Nat → List Nat) (rank : Nat → Option Nat) : Prop where
  filterNames : segment.filters.map (·.name) = if kind.isFilter then [name] else []
  sortNames : segment.sorts.map (·.name) = if kind.isSort then [name] else []
  filters : ∀ index ∈ segment.filters, index.Files documents values bucket
  sorts : ∀ index ∈ segment.sorts, index.Files documents values rank

section Indexes

variable {values : List Bytes} {bucket : Nat → List Nat} {rank : Nat → Option Nat}
  {filter : FilterIndex} {sort : SortIndex}

theorem indexes_filter (filters : kind.isFilter = true) (sorts : kind.isSort = false)
    (named : filter.name = name) (files : filter.Files documents values bucket) :
    (Segment.filter filter).Indexes kind name documents values bucket rank where
  filterNames := by simp [Segment.filters, filters, named]
  sortNames := by simp [Segment.sorts, sorts]
  filters _ listed := List.mem_singleton.mp listed ▸ files
  sorts _ none := absurd none List.not_mem_nil

theorem indexes_sort (filters : kind.isFilter = false) (sorts : kind.isSort = true)
    (named : sort.name = name) (files : sort.Files documents values rank) :
    (Segment.sort sort).Indexes kind name documents values bucket rank where
  filterNames := by simp [Segment.filters, filters]
  sortNames := by simp [Segment.sorts, sorts, named]
  filters _ none := absurd none List.not_mem_nil
  sorts _ listed := List.mem_singleton.mp listed ▸ files

theorem indexes_full (filters : kind.isFilter = true) (sorts : kind.isSort = true)
    (named : filter.name = name) (files : filter.Files documents values bucket)
    (also : sort.name = name) (ranked : sort.Files documents values rank) :
    (Segment.full filter sort).Indexes kind name documents values bucket rank where
  filterNames := by simp [Segment.filters, filters, named]
  sortNames := by simp [Segment.sorts, sorts, also]
  filters _ listed := List.mem_singleton.mp listed ▸ files
  sorts _ listed := List.mem_singleton.mp listed ▸ ranked

end Indexes

theorem decodeName_reads (fits : (Value.textBytes name).length < 2 ^ 32) :
    Decoder.Reads decodeName (Bytes.counted (Value.textBytes name)) (· = name) := by
  unfold decodeName
  have text : String.fromUTF8? (ByteArray.mk (Value.textBytes name).toArray) = some name := by
    change String.fromUTF8? name.toUTF8 = some name
    rw [String.fromUTF8?, String.toUTF8_eq_toByteArray, dif_pos name.isValidUTF8]
    rfl
  refine (Decoder.Reads.counted fits).bind_last fun stored same => ?_
  rw [same, text]
  exact Decoder.Reads.pure rfl

/-- The body of a written index segment is read back. -/
theorem decodeIndex_reads {dictionaryKind : DictionaryKind} {encoding : PostingsEncoding}
    (fits : (Value.textBytes name).length < 2 ^ 32)
    (layout : kind.dictionaryKind? = some dictionaryKind)
    (writable : Dictionary.Writable s dictionaryKind)
    (formed : b.form encoding = .ok stored) (short : stored.length < 2 ^ 32)
    (keys : b.keys = s.size) (size : s.size < 2 ^ 32) (small : b.documents < 2 ^ 32)
    (below : ∀ listed ∈ b.buckets.toList, ∀ i ∈ listed, i < b.documents)
    (ranked : kind.isSort = true → ∀ document < b.documents,
      ranks document = SortIndex.noRank ∨
        ranks document < s.size ∧ ranks document < SortIndex.noRank)
    (agree : kind.isSort = true → b.bucket = fun key => (List.range b.documents).filter
      (SortIndex.rankIn b.documents ranks · = some key)) :
    Decoder.Reads (decodeIndex kind b.documents)
      (Bytes.counted (Value.textBytes name) ++ (s.form dictionaryKind ++ stored) ++
        if kind.isSort then Bytes.ofUInt32 b.documents ++
          (List.range b.documents).flatMap fun document => Bytes.ofUInt32 (ranks document)
        else [])
      fun segment => segment.Indexes kind name b.documents s.values b.bucket
        (SortIndex.rankIn b.documents ranks) := by
  unfold decodeIndex
  simp only [List.append_assoc]
  refine (decodeName_reads fits).bind fun read same => ?_
  obtain rfl := same.symm
  refine (Dictionary.decode_reads writable).bind fun dictionary ⟨sameKind, holds⟩ => ?_
  rw [if_neg (by rw [sameKind, layout]; exact not_not_intro rfl)]
  have room := PostingsBuilder.fits_of_short (keys ▸ size) formed short
  refine (PostingsBuilder.form_reads (Nat.le_of_lt small) below room formed).bind
    fun postings ⟨sameKeys, lists⟩ => ?_
  have count : postings.keys = dictionary.size := by
    rw [sameKeys, keys, holds.size]
    rfl
  rw [if_neg (not_not_intro count)]
  have files : FilterIndex.Files ⟨name, dictionary, postings⟩ b.documents s.values b.bucket :=
    ⟨holds, Nat.lt_trans size (by decide), lists, count.trans holds.size⟩
  cases sorting : kind.isSort with
  | false =>
    have filters : kind.isFilter = true := by
      cases kind <;> first | rfl | contradiction
    exact Decoder.Reads.pure (indexes_filter filters sorting rfl files)
  | true =>
    rw [agree sorting] at lists
    have reads := @SortIndex.decode_files name dictionary postings b.documents ranks _ small holds
      (count.trans holds.size) lists (ranked sorting)
    apply reads.bind_last
    rintro index ⟨named, number, placed⟩
    rw [if_neg (not_not_intro number)]
    cases filtering : kind.isFilter with
    | false => exact Decoder.Reads.pure (indexes_sort filtering sorting named placed)
    | true => exact Decoder.Reads.pure (indexes_full filtering sorting rfl files named placed)

end Segment

namespace RawSegment

variable {raw : RawSegment} {region : View} {bytes : Bytes} {documents : Nat}
  {post : Segment → Prop}

/-- A body that a decoder reads to its end. -/
theorem decode_eq_ok (reads : Decoder.Reads (Segment.decodeBody raw.kind documents) bytes post)
    (body : raw.body.rest = bytes) : ∃ segment, raw.decode documents = .ok segment ∧ post segment := by
  obtain ⟨segment, rest, ran, ended, held⟩ := @Decoder.Reads.run_eq _ _ _ _ _ [] reads (by
    rw [body, List.append_nil])
  refine ⟨segment, ?_, held⟩
  have done : rest.remaining = 0 := by
    rw [← View.length_rest, ended]
    rfl
  rw [decode, ran]
  exact if_pos done

abbrev Written := SegmentKind × Bytes

def formOf (segments : List Written) : Bytes := segments.flatMap fun s => Segment.form s.1 s.2

def written (raw : RawSegment) : Written := (raw.kind, raw.body.rest)

theorem decodeNext_reads {kind : SegmentKind} {body : Bytes} (fits : body.length + 4 < 2 ^ 32) :
    Decoder.Reads decodeNext (Segment.form kind body) (·.written = (kind, body)) := by
  unfold decodeNext Segment.form
  rw [List.append_assoc]
  refine Decoder.Reads.tagged fits fun offset => ?_
  dsimp only
  rw [if_neg (by omega)]
  refine (Decoder.Reads.uint32 ?_).bind fun _ code => ?_
  · cases kind <;> decide
  · subst code
    simp only [SegmentKind.ofCode?_code]
    refine (Decoder.Reads.slice body).bind_last fun taken ⟨same, start⟩ => Decoder.Reads.pure ?_
    rw [written, View.rest_eq_bytes start, same]

theorem splitFrom_form {segments : List Written} {fuel : Nat}
    (short : ∀ s ∈ segments, s.2.length + 4 < 2 ^ 32) (here : region.rest = formOf segments)
    (enough : segments.length ≤ fuel) :
    ∃ raws, splitFrom fuel region = .ok raws ∧ raws.map written = segments := by
  induction segments generalizing fuel region with
  | nil =>
    have done : region.remaining = 0 := by
      rw [← View.length_rest, here]
      rfl
    refine ⟨[], ?_, rfl⟩
    unfold splitFrom
    exact if_pos done
  | cons first rest ih =>
    obtain ⟨kind, body⟩ := first
    have more : region.remaining ≠ 0 := by
      rw [← View.length_rest, here, formOf, List.flatMap_cons, Segment.form]
      simp
    cases fuel with
    | zero => exact absurd enough (Nat.not_succ_le_zero _)
    | succ fuel =>
      obtain ⟨raw, later, ran, left, taken⟩ :=
        (decodeNext_reads (short _ List.mem_cons_self)).run_eq here
      obtain ⟨raws, split, same⟩ := ih (fun s inside => short s (List.mem_cons_of_mem _ inside))
        left (Nat.le_of_succ_le_succ enough)
      refine ⟨raw :: raws, ?_, ?_⟩
      · unfold splitFrom
        rw [if_neg more, ran]
        simp only [split, ok_bind, pure_eq_ok]
      · rw [List.map_cons, taken, same]

theorem length_le_formOf (segments : List Written) :
    segments.length ≤ (formOf segments).length := by
  induction segments with
  | nil => exact Nat.zero_le _
  | cons first rest ih =>
    rw [formOf, List.flatMap_cons, List.length_append, List.length_cons, Segment.form]
    rw [formOf] at ih
    simp only [List.length_append, Bytes.length_ofUInt32]
    omega

/-- A region of written segments is split into just these. -/
theorem split_form {segments : List Written} (short : ∀ s ∈ segments, s.2.length + 4 < 2 ^ 32)
    (here : region.bytes = formOf segments) (start : region.start < sizeLimit) :
    ∃ raws, split region = .ok raws ∧ raws.map written = segments := by
  unfold split View.setPosition
  rw [addSizes_of_lt start]
  apply splitFrom_form short
  · exact (View.rest_eq_bytes (Nat.zero_min _)).trans here
  · have count := length_le_formOf segments
    rw [← here, View.length_bytes] at count
    simpa [View.remaining] using count

end RawSegment

end DocStore
