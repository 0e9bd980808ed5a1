import DocStore.Proofs.Delimiting
import DocStore.Proofs.Format.Sorting

/-! Every stored structure finds its own end. The checks between the reads look at bytes that were
consumed before, so a body that is accepted says where it ends, and nothing shorter or longer is
accepted in its place. Structures are compared detached: on views of just their bytes. -/
namespace DocStore

namespace TrieNode

variable {v w : View} (same : v.bytes = w.bytes)
include same

theorem need_congr : need v = need w := by
  funext offset position width
  simp only [need, View.size_congr same]

theorem readTable_congr : readTable v = readTable w := by
  funext shape tableAt
  unfold readTable
  rw [View.byteAt_congr same, View.uint32At_congr same]

theorem readAt_congr : readAt v = readAt w := by
  funext offset
  unfold readAt
  rw [View.byteAt_congr same, View.uint32At_congr same, readTable_congr same]

theorem countAt_congr : countAt v = countAt w := by
  funext offset
  rw [countAt, countAt, View.uint32At_congr same]

theorem edges_congr (node : TrieNode) : node.edges v = node.edges w := by
  unfold edges
  rw [View.byteAt_congr same, View.uint32At_congr same]

theorem checkedLabel_congr : checkedLabel v = checkedLabel w := by
  funext offset flags
  unfold checkedLabel
  rw [View.uint32At_congr same, need_congr same]

theorem checkTable_congr : checkTable v = checkTable w := by
  funext offset shape tableAt
  unfold checkTable
  rw [View.byteAt_congr same, View.uint32At_congr same, need_congr same]

theorem checkedAt_congr : checkedAt v = checkedAt w := by
  funext offset
  unfold checkedAt
  rw [View.byteAt_congr same, need_congr same, checkedLabel_congr same, checkTable_congr same,
    readAt_congr same]

end TrieNode

namespace StoredTrie

section
variable {v w : View} (same : v.bytes = w.bytes)
include same

theorem checkEdges_congr (node : Nat) (last : Option UInt8) (edges : List Edge) :
    checkEdges v node last edges = checkEdges w node last edges := by
  induction edges generalizing last with
  | nil => rfl
  | cons edge rest ih =>
    simp only [checkEdges, TrieNode.checkedAt_congr same, TrieNode.countAt_congr same, ih]

theorem checkBelow_congr (offset : Nat) : checkBelow v offset = checkBelow w offset := by
  induction offset using Nat.strongRecOn with
  | ind offset ih =>
    have below : (fun child : { child // child < offset } => checkBelow v child.1) =
        fun child => checkBelow w child.1 := funext fun child => ih child.1 child.2
    rw [checkBelow, checkBelow]
    simp only [TrieNode.checkedAt_congr same, TrieNode.edges_congr same, checkEdges_congr same,
      below]

theorem check_congr (size root : Nat) : check ⟨size, root, v⟩ = check ⟨size, root, w⟩ := by
  simp only [check, TrieNode.checkedAt_congr same, checkBelow_congr same]

end

def detached (t : StoredTrie) : StoredTrie := { t with nodes := t.nodes.detached }

theorem decode_delimits : Decoder.Delimits decode detached := by
  apply Decoder.Delimits.uint32.bind_same
  intro size
  apply Decoder.Delimits.uint32.bind_same
  intro root
  apply Decoder.Delimits.uint32.bind_same
  intro length
  apply Decoder.Delimits.slice.bind
  intro nodes nodes' same
  dsimp only
  rw [check_congr same]
  apply Decoder.Follows.checked.bind_same
  intro _
  apply Decoder.Follows.pure
  simp only [detached, View.detached_congr same]

end StoredTrie

namespace FixedTable

def detached (t : FixedTable) : FixedTable := { t with elements := t.elements.detached }

theorem decode_delimits : Decoder.Delimits decode detached := by
  apply Decoder.Delimits.uint32.bind_same
  intro size
  apply Decoder.Delimits.uint32.bind_same
  intro width
  apply Decoder.Delimits.tableSize.bind_same
  intro length
  apply Decoder.Delimits.slice.bind
  intro elements elements' same
  apply Decoder.Follows.pure
  simp only [detached, View.detached_congr same]

end FixedTable

namespace VariableTable

def detached (t : VariableTable) : VariableTable :=
  { t with offsets := t.offsets.detached, elements := t.elements.detached }

theorem decode_delimits : Decoder.Delimits decode detached := by
  apply Decoder.Delimits.uint32.bind_same
  intro size
  apply Decoder.Delimits.offsetCount.bind_same
  intro entries
  apply Decoder.Delimits.table.bind
  intro offsets offsets' same
  rw [View.uint32At_congr same]
  apply Decoder.Delimits.lastOffset.bind_same
  intro total
  apply Decoder.Delimits.slice.bind
  intro elements elements' same'
  apply Decoder.Follows.pure
  simp only [detached, View.detached_congr same, View.detached_congr same']

end VariableTable

namespace Dictionary

def detached : Dictionary → Dictionary
  | fixed table => .fixed table.detached
  | varied table => .varied table.detached
  | trie tree => .trie tree.detached

@[simp] theorem kind_detached (d : Dictionary) : d.detached.kind = d.kind := by
  cases d <;> rfl

@[simp] theorem size_detached (d : Dictionary) : d.detached.size = d.size := by
  cases d <;> rfl

theorem decode_delimits : Decoder.Delimits decode detached := by
  apply Decoder.Delimits.position.bind
  intro position position' _
  apply Decoder.Delimits.uint32.bind_same
  intro tag
  cases DictionaryKind.ofCode? tag with
  | none => exact Decoder.Follows.refuse
  | some kind =>
    cases kind with
    | fixed =>
      exact FixedTable.decode_delimits.bind fun _ _ same => .pure (congrArg fixed same)
    | varied =>
      exact VariableTable.decode_delimits.bind fun _ _ same => .pure (congrArg varied same)
    | trie =>
      exact StoredTrie.decode_delimits.bind fun _ _ same => .pure (congrArg trie same)

end Dictionary

namespace PostingList

def detached (p : PostingList) : PostingList :=
  { p with offsets := p.offsets.detached, documents := p.documents.detached }

theorem decode_delimits (documentCount : Nat) :
    Decoder.Delimits (decode documentCount) detached := by
  apply Decoder.Delimits.uint32.bind_same
  intro keys
  apply Decoder.Delimits.offsetCount.bind_same
  intro entries
  apply Decoder.Delimits.table.bind
  intro offsets offsets' same
  rw [View.uint32At_congr same]
  apply Decoder.Delimits.lastOffset.bind_same
  intro total
  apply Decoder.Delimits.tableSize.bind_same
  intro length
  apply Decoder.Delimits.slice.bind
  intro documents documents' same'
  rw [View.uint32At_congr same']
  have checks : Decoder.Delimits ((List.range total).forM fun position => do
      let document ← documents.uint32At (position * 4)
      if documentCount ≤ document then
        Decoder.corrupt (.postingOutOfRange document documentCount)) (id : Unit → Unit) := by
    apply Decoder.Follows.forM
    intro position
    apply Decoder.Follows.lift.bind_same
    intro document
    exact Decoder.Follows.ite (fun _ => Decoder.Follows.refuse) fun _ => Decoder.Follows.pure rfl
  apply checks.bind_same
  intro _
  apply Decoder.Follows.pure
  simp only [detached, View.detached_congr same, View.detached_congr same']

end PostingList

namespace PostingBits

def detached (p : PostingBits) : PostingBits := { p with words := p.words.detached }

theorem decode_delimits (documentCount : Nat) :
    Decoder.Delimits (decode documentCount) detached := by
  apply Decoder.Delimits.uint32.bind_same
  intro keys
  apply Decoder.Delimits.uint32.bind_same
  intro wordsPerKey
  apply Decoder.Follows.lift.bind_same
  intro needed
  apply Decoder.Follows.check
  apply Decoder.Delimits.tableSize.bind_same
  intro count
  apply Decoder.Delimits.tableSize.bind_same
  intro length
  apply Decoder.Delimits.slice.bind
  intro words words' same
  apply Decoder.Follows.pure
  simp only [detached, View.detached_congr same]

end PostingBits

namespace Postings

def detached : Postings → Postings
  | list postings => .list postings.detached
  | bits postings => .bits postings.detached

@[simp] theorem keys_detached (p : Postings) : p.detached.keys = p.keys := by
  cases p <;> rfl

theorem decode_delimits (documents : Nat) : Decoder.Delimits (decode documents) detached := by
  apply Decoder.Delimits.position.bind
  intro position position' _
  apply Decoder.Delimits.uint32.bind_same
  intro tag
  cases PostingsEncoding.ofCode? tag with
  | none => exact Decoder.Follows.refuse
  | some encoding =>
    cases encoding with
    | list =>
      exact (PostingList.decode_delimits documents).bind fun _ _ same => .pure (congrArg list same)
    | bits =>
      exact (PostingBits.decode_delimits documents).bind fun _ _ same => .pure (congrArg bits same)

end Postings

namespace Payloads

def detached (p : Payloads) : Payloads :=
  { p with offsets := p.offsets.detached, data := p.data.detached }

theorem decode_delimits : Decoder.Delimits decode detached := by
  apply Decoder.Delimits.uint32.bind_same
  intro documents
  apply Decoder.Follows.lift.bind_same
  intro entries
  apply Decoder.Delimits.table.bind
  intro offsets offsets' same
  rw [View.uint64At_congr same]
  apply Decoder.Delimits.lastOffset.bind_same
  intro total
  apply Decoder.Delimits.slice.bind
  intro data data' same'
  apply Decoder.Follows.pure
  simp only [detached, View.detached_congr same, View.detached_congr same']

end Payloads

namespace SortIndex

def detached (index : SortIndex) : SortIndex :=
  { index with
    dictionary := index.dictionary.detached
    postings := index.postings.detached
    ranks := index.ranks.detached }

variable {dictionary dictionary' : Dictionary} {postings postings' : Postings}

theorem decode_follows (name : String) (values : dictionary'.detached = dictionary.detached)
    (lists : postings'.detached = postings.detached) :
    Decoder.Follows (decode name dictionary postings) (decode name dictionary' postings')
      detached := by
  have size : dictionary'.size = dictionary.size := by
    simpa using congrArg Dictionary.size values
  have keys : postings'.keys = postings.keys := by
    simpa using congrArg Postings.keys lists
  unfold decode
  rw [size, keys]
  apply Decoder.Delimits.uint32.bind_same
  intro documents
  apply Decoder.Delimits.table.bind
  intro ranks ranks' same
  rw [View.uint32At_congr same]
  apply Decoder.Follows.check
  have counts : ∀ start, Decoder.Delimits ((List.range documents).foldlM
      (fun unranked document => do
        let rank ← ranks.uint32At (document * 4)
        if rank = noRank then
          addSizes unranked 1
        else if dictionary.size ≤ rank then
          Decoder.corrupt (.rankOutOfRange document rank dictionary.size)
        else
          return unranked) start) (id : Nat → Nat) := by
    apply Decoder.Follows.foldlM
    intro unranked document
    apply Decoder.Follows.lift.bind_same
    intro rank
    refine Decoder.Follows.ite (fun _ => Decoder.Follows.lift) fun _ => ?_
    exact Decoder.Follows.ite (fun _ => Decoder.Follows.refuse) fun _ => Decoder.Follows.pure rfl
  apply (counts 0).bind_same
  intro unranked
  apply Decoder.Follows.pure
  simp only [detached, values, lists, View.detached_congr same]

theorem decode_delimits (name : String) (dictionary : Dictionary) (postings : Postings) :
    Decoder.Delimits (decode name dictionary postings) detached :=
  decode_follows name rfl rfl

end SortIndex

def FilterIndex.detached (index : FilterIndex) : FilterIndex :=
  { index with dictionary := index.dictionary.detached, postings := index.postings.detached }

namespace Segment

def detached : Segment → Segment
  | payloads listed => .payloads listed.detached
  | filter index => .filter index.detached
  | sort index => .sort index.detached
  | full index order => .full index.detached order.detached

theorem decodeName_delimits : Decoder.Delimits decodeName (id : String → String) := by
  apply Decoder.Delimits.counted.bind
  intro stored stored' same
  rw [same]
  cases String.fromUTF8? (ByteArray.mk stored.bytes.toArray) with
  | none => exact Decoder.Follows.refuse
  | some name => exact Decoder.Follows.pure rfl

theorem decodeIndex_delimits (kind : SegmentKind) (documents : Nat) :
    Decoder.Delimits (decodeIndex kind documents) detached := by
  apply decodeName_delimits.bind_same
  intro name
  apply Dictionary.decode_delimits.bind
  intro dictionary dictionary' values
  have sameKind : dictionary'.kind = dictionary.kind := by
    simpa using congrArg Dictionary.kind values
  have size : dictionary'.size = dictionary.size := by
    simpa using congrArg Dictionary.size values
  dsimp only
  rw [sameKind]
  apply Decoder.Follows.check
  apply (Postings.decode_delimits documents).bind
  intro postings postings' lists
  have keys : postings'.keys = postings.keys := by
    simpa using congrArg Postings.keys lists
  rw [size, keys]
  apply Decoder.Follows.check
  refine Decoder.Follows.ite (fun _ => ?_) fun _ => Decoder.Follows.pure ?_
  · apply (SortIndex.decode_follows name values lists).bind
    intro sort sort' same
    have ranked : sort'.detached.documents = sort.detached.documents :=
      congrArg SortIndex.documents same
    change sort'.documents = sort.documents at ranked
    rw [ranked]
    apply Decoder.Follows.check
    apply Decoder.Follows.pure
    split
    · simp only [detached, FilterIndex.detached, values, lists, same]
    · simp only [detached, same]
  · simp only [detached, FilterIndex.detached, values, lists]

theorem decodeBody_delimits (kind : SegmentKind) (documents : Nat) :
    Decoder.Delimits (decodeBody kind documents) detached := by
  unfold decodeBody
  split
  · exact Payloads.decode_delimits.bind fun _ _ same => .pure (congrArg payloads same)
  · exact decodeIndex_delimits _ documents

end Segment

namespace RawSegment

variable {raw : RawSegment} {documents : Nat} {segment : Segment}

/-- The body of a segment says where it ends: wherever the same bytes stand they are the same
segment, with less of them the decoder runs out of bytes, and with more it leaves some over. -/
structure Delimited (raw : RawSegment) (documents : Nat) (segment : Segment) : Prop where
  same : ∀ other : RawSegment, other.kind = raw.kind → other.body.rest = raw.body.rest →
    ∃ read, other.decode documents = .ok read ∧ read.detached = segment.detached
  shorter : ∀ (other : RawSegment) (missing : Bytes), other.kind = raw.kind → missing ≠ [] →
    other.body.rest ++ missing = raw.body.rest →
      ∃ e, other.decode documents = .error (.refused e) ∧ e.code = "SEAL_FORMAT_TRUNCATED"
  longer : ∀ (other : RawSegment) (extra : Bytes), other.kind = raw.kind → extra ≠ [] →
    other.body.rest = raw.body.rest ++ extra →
      ∃ e, other.decode documents = .error (.refused e) ∧ e.code = "SEAL_FORMAT_CORRUPT"

theorem run_of_decode (accepted : raw.decode documents = .ok segment) :
    ∃ rest, (Segment.decodeBody raw.kind documents).runOn raw.body = (.ok segment, rest) ∧
      rest.rest = [] := by
  unfold decode at accepted
  split at accepted
  · rename_i read rest ran
    split at accepted
    · rename_i done
      cases accepted
      refine ⟨rest, ran, List.eq_nil_of_length_eq_zero ?_⟩
      rw [View.length_rest, done]
    · cases accepted
  · cases accepted

/-- Bodies delimit themselves, because each structure they consist of does. -/
theorem decode_delimited (accepted : raw.decode documents = .ok segment) :
    raw.Delimited documents segment ∧ Decoder.Delimits Dictionary.decode Dictionary.detached ∧
      (∀ documents, Decoder.Delimits (Postings.decode documents) Postings.detached) ∧
      (∀ name dictionary postings,
        Decoder.Delimits (SortIndex.decode name dictionary postings) SortIndex.detached) ∧
      Decoder.Delimits Payloads.decode Payloads.detached := by
  obtain ⟨rest, ran, ended⟩ := run_of_decode accepted
  obtain ⟨used, passes, consumes, starves⟩ := Segment.decodeBody_delimits _ _ _ _ _ ran
  have whole : raw.body.rest = used := by rw [passes.rest, ended, List.append_nil]
  refine ⟨⟨?_, ?_, ?_⟩, Dictionary.decode_delimits, Postings.decode_delimits,
    SortIndex.decode_delimits, Payloads.decode_delimits⟩
  · intro other kind body
    obtain ⟨read, after, ran, moved, same⟩ := consumes other.body [] (by
      rw [body, whole, List.append_nil])
    have done : after.remaining = 0 := by
      rw [← View.length_rest, moved.rest_of (body.trans (whole.trans (List.append_nil _).symm))]
      rfl
    refine ⟨read, ?_, same⟩
    rw [decode, kind, ran]
    exact if_pos done
  · intro other missing kind some body
    obtain ⟨offset, what, after, refused⟩ := starves other.body missing some (body.trans whole)
    refine ⟨.truncated offset what, ?_, rfl⟩
    rw [decode, kind, refused]
    rfl
  · intro other extra kind some body
    rw [whole] at body
    obtain ⟨read, after, ran, moved, _⟩ := consumes other.body extra body
    have left : after.remaining ≠ 0 := by
      rw [← View.length_rest, moved.rest_of body]
      exact fun none => some (List.eq_nil_of_length_eq_zero none)
    refine ⟨.corrupt (.trailingBytes raw.kind.name other.offset after.remaining), ?_, rfl⟩
    rw [decode, kind, ran]
    exact if_neg left

def listedRanked : RawSegment := overOne [[97]] [1, 1, 0, 1, 0] 0

theorem decode_delimited_listedRanked : ∃ segment, listedRanked.decode 1 = .ok segment ∧
    listedRanked.Delimited 1 segment := by
  obtain ⟨segment, _, accepted, _⟩ := @exists_sorting 1 listedRanked (fun _ => true)
    (by decide +kernel)
  exact ⟨segment, accepted, (decode_delimited accepted).1⟩

end RawSegment

end DocStore
