import DocStore.Proofs.Build.Totality

/-! Builders do not tell in what order the parts of a document were set. Each step keeps two
builders with the same payloads and the same columns but for the order of their postings, and
sealing sorts what is left of that order. -/
namespace DocStore

namespace Column

variable {c c' : Column} {documents : Nat} {b b' : PostingsBuilder}

/-- Two columns with the same values for the same documents, in any order. -/
structure Reordered (c c' : Column) : Prop where
  name : c.name = c'.name
  indexing : c.indexing = c'.indexing
  values : c.values = c'.values
  postings : c.postings.Perm c'.postings

theorem Reordered.collected (reordered : c.Reordered c')
    (collected : c.Collected documents c.postings b)
    (collected' : c'.Collected documents c'.postings b') : b.Reordered b' := by
  have listed : ∀ key, (b.buckets.toList.getD key []).Perm (b'.buckets.toList.getD key []) := by
    intro key
    rw [collected.listed, collected'.listed, posted, posted, reordered.values]
    exact (reordered.postings.filter _).map _
  have keys : b.buckets.toList.length = b'.buckets.toList.length := by
    have same : b.keys = b'.keys := by
      rw [collected.keys, collected'.keys, reordered.values]
    simpa [PostingsBuilder.keys] using same
  refine ⟨collected.documents.trans collected'.documents.symm, List.forall₂_iff_get.mpr ⟨keys, ?_⟩⟩
  intro key inside inside'
  have here := listed key
  rwa [List.getD_eq_getElem _ _ inside, List.getD_eq_getElem _ _ inside'] at here

section Sealable

variable (reordered : c.Reordered c') (sealable : c.Sealable documents)
  (sealable' : c'.Sealable documents)

include reordered sealable sealable'

/-- A document has one value of a sortable field, so that the last one is not one of many. -/
theorem Reordered.rankOf_eq (sortable : c.indexing.isSortable = true) : c.rankOf = c'.rankOf := by
  funext document
  have last : c.lastValue? document = c'.lastValue? document := by
    apply Option.ext
    intro value
    rw [lastValue?_eq sealable sortable,
      lastValue?_eq sealable' (reordered.indexing ▸ sortable), reordered.postings.mem_iff]
  rw [rankOf, rankOf, last, reordered.values]

/-- What is stored of a column does not tell the order of its postings. -/
theorem Reordered.form_eq : c.form documents = c'.form documents := by
  obtain ⟨b, collect, collected⟩ := collect_eq_ok sealable.content
  obtain ⟨b', collect', collected'⟩ := collect_eq_ok sealable'.content
  have alike := reordered.collected collected collected'
  have ranks : (if c.indexing.isSortable then c.ranksForm documents else []) =
      if c'.indexing.isSortable then c'.ranksForm documents else [] := by
    rw [← reordered.indexing]
    split
    · rename_i sortable
      rw [ranksForm, ranksForm, reordered.rankOf_eq sealable sealable' sortable]
    · rfl
  rw [form_of_collect collect, form_of_collect collect', alike.choice_eq, ranks, reordered.name,
    reordered.values, reordered.indexing]
  simp only [alike.form_eq]

end Sealable

end Column

namespace Builder

variable {b b' : Builder} {accepted accepted' : List Document} {d d' : Document}

theorem perm_entriesOf (reordered : List.Forall₂ Document.Reordered accepted accepted') :
    (entriesOf accepted).Perm (entriesOf accepted') := by
  suffices steps : ∀ first, ((accepted.zipIdx first).flatMap fun item =>
      item.1.fields.map (item.2, ·)).Perm ((accepted'.zipIdx first).flatMap fun item =>
        item.1.fields.map (item.2, ·)) from steps 0
  induction reordered with
  | nil => exact fun _ => List.Perm.nil
  | cons same _ ih => exact fun first => (same.fields.map _).append (ih (first + 1))

theorem uniform_of_perm {entries entries' : List (Nat × FieldEntry)}
    (shuffled : entries.Perm entries') (uniform : Uniform entries) : Uniform entries' :=
  fun x first y second =>
    uniform x (shuffled.mem_iff.mpr first) y (shuffled.mem_iff.mpr second)

/-- Two builders that were given documents in the same order, and their parts in any. -/
structure Reordered (b b' : Builder) (accepted accepted' : List Document) : Prop where
  stores : b.Stores accepted
  stores' : b'.Stores accepted'
  listed : Listed b.columns (entriesOf accepted)
  listed' : Listed b'.columns (entriesOf accepted')
  documents : List.Forall₂ Document.Reordered accepted accepted'

theorem reordered_empty : empty.Reordered empty [] [] where
  stores := stores_empty
  stores' := stores_empty
  listed _ none := absurd none List.not_mem_nil
  listed' _ none := absurd none List.not_mem_nil
  documents := List.Forall₂.nil

namespace Reordered

variable (reordered : b.Reordered b' accepted accepted')

include reordered

theorem symm : b'.Reordered b accepted' accepted where
  stores := reordered.stores'
  stores' := reordered.stores
  listed := reordered.listed'
  listed' := reordered.listed
  documents := reordered.documents.flip.imp fun _ _ same => same.symm

/-- A document is admitted by its values and those before it, in whatever order they are. -/
theorem admissible (coherent : d.Coherent) (same : d.Reordered d')
    (admissible : Admissible accepted d) : Admissible accepted' d' := by
  rcases reordered.stores.offer coherent with ⟨_, after, _, _, stores⟩ | ⟨inadmissible, _⟩
  · have documents := List.rel_append reordered.documents (List.Forall₂.cons same .nil)
    refine admissible_of_uniform (uniform_of_perm (perm_entriesOf documents) stores.uniform) ?_ ?_
    · exact same.payload ▸ admissible.payload
    · exact reordered.documents.length_eq ▸ admissible.room
  · exact absurd admissible inadmissible

/-- Both builders accept a document, under one number, or both refuse it. -/
theorem offer (coherent : d.Coherent) (same : d.Reordered d') :
    (∃ after after', b.offer d = (.ok accepted.length, after) ∧
      b'.offer d' = (.ok accepted.length, after') ∧
      after.Reordered after' (accepted ++ [d]) (accepted' ++ [d'])) ∨
    ∃ e e', b.offer d = (.error e, b) ∧ b'.offer d' = (.error e', b') := by
  have coherent' := same.coherent coherent
  rcases reordered.stores.offer coherent with
    ⟨admissible, after, offered, added, stores⟩ | ⟨inadmissible, e, refused⟩
  · have admissible' := reordered.admissible coherent same admissible
    rcases reordered.stores'.offer coherent' with
      ⟨_, after', offered', added', stores'⟩ | ⟨inadmissible', _⟩
    · rw [← reordered.documents.length_eq] at offered'
      exact Or.inl ⟨after, after', offered, offered', stores, stores',
        reordered.listed.offer reordered.stores added,
        reordered.listed'.offer reordered.stores' added',
        List.rel_append reordered.documents (List.Forall₂.cons same .nil)⟩
    · exact absurd admissible' inadmissible'
  · rcases reordered.stores'.offer coherent' with ⟨admissible', _⟩ | ⟨_, e', refused'⟩
    · exact absurd (reordered.symm.admissible coherent' same.symm admissible') inadmissible
    · exact Or.inr ⟨e, e', refused, refused'⟩

theorem payloads_eq : b.payloads = b'.payloads := by
  have alike : accepted.map (·.payload) = accepted'.map (·.payload) := by
    rw [← List.forall₂_eq_eq_eq, List.forall₂_map_left_iff, List.forall₂_map_right_iff]
    exact reordered.documents.imp fun _ _ same => same.payload
  have wrapped := reordered.stores.payloads.trans (alike.trans reordered.stores'.payloads.symm)
  exact (List.map_inj_right fun _ _ => Option.some.inj).mp wrapped

theorem names_eq : b.columns.map (·.name) = b'.columns.map (·.name) := by
  have asymm : Std.Asymm fun x y : String => x < y := ⟨fun _ _ => String.lt_asymm⟩
  have names : ∀ {columns : List Column} {entries}, Collect columns entries → ∀ name,
      name ∈ columns.map (·.name) ↔ ∃ item ∈ entries, item.2.name = name := by
    intro columns entries collect name
    rw [List.mem_map]
    constructor
    · rintro ⟨c, inside, rfl⟩
      obtain ⟨item, listed, named, _⟩ := (collect.each c inside).declared
      exact ⟨item, listed, named⟩
    · rintro ⟨item, listed, rfl⟩
      exact collect.all item listed
  refine eq_of_ascending (List.pairwise_map.mpr reordered.stores.collect.named)
    (List.pairwise_map.mpr reordered.stores'.collect.named) fun name => ?_
  rw [names reordered.stores.collect, names reordered.stores'.collect]
  simp only [(perm_entriesOf reordered.documents).mem_iff]

/-- The columns of one field have the same values for the same documents. -/
theorem column {c c' : Column} (inside : c ∈ b.columns) (inside' : c' ∈ b'.columns)
    (named : c.name = c'.name) : c.Reordered c' := by
  have entries := perm_entriesOf reordered.documents
  have collects := reordered.stores.collect.each c inside
  have collects' := reordered.stores'.collect.each c' inside'
  have postings : c.postings.Perm c'.postings := by
    rw [reordered.listed c inside, reordered.listed' c' inside', Column.listing, Column.listing, named]
    exact (entries.filter _).map _
  refine ⟨named, ?_, ?_, postings⟩
  · obtain ⟨item, listed, own, declared⟩ := collects.declared
    obtain ⟨item', listed', own', declared'⟩ := collects'.declared
    have alike := reordered.stores.uniform item listed item' (entries.mem_iff.mpr listed')
      (own.trans (named.trans own'.symm))
    rw [← declared, alike.1, declared']
  · refine congrArg ValueSet.mk
      (eq_of_ascending collects.ascending collects'.ascending fun value => ?_)
    simp only [collects.values, collects'.values, postings.mem_iff]

theorem columns : List.Forall₂ (fun c c' => c ∈ b.columns ∧ c' ∈ b'.columns ∧ c.Reordered c')
    b.columns b'.columns := by
  have names := reordered.names_eq
  rw [← List.forall₂_eq_eq_eq, List.forall₂_map_left_iff, List.forall₂_map_right_iff,
    List.forall₂_iff_zip] at names
  refine List.forall₂_iff_zip.mpr ⟨names.1, fun {c c'} paired => ?_⟩
  obtain ⟨inside, inside'⟩ := List.of_mem_zip paired
  exact ⟨inside, inside', reordered.column inside inside' (names.2 paired)⟩

/-- What is sealed does not tell the order of the parts. -/
theorem freeze_eq : b.freeze = b'.freeze := by
  have size : b.size = b'.size := congrArg List.length reordered.payloads_eq
  have segments : (b.columns.mapM fun column => do
        return Segment.form column.indexing.segmentKind (← column.form b.size)) =
      b'.columns.mapM fun column => do
        return Segment.form column.indexing.segmentKind (← column.form b'.size) := by
    refine mapM_eq_mapM (reordered.columns.imp ?_)
    rintro c c' ⟨inside, inside', same⟩
    have sealable := reordered.stores.sealable inside
    have sealable' := reordered.stores'.sealable inside'
    rw [← reordered.documents.length_eq] at sealable'
    rw [← size, reordered.stores.size, same.form_eq sealable sealable', same.indexing]
  rw [freeze, freeze, segments, size, reordered.payloads_eq, reordered.columns.length_eq]

end Reordered

/-- What a builder answers to a document that is set up part by part and added. -/
inductive Reception where
  /-- The parts do not stand together. -/
  | malformed
  /-- The document is not added. -/
  | refused
  | accepted (number : Nat)
deriving DecidableEq

def Reception.ofOffer : Except BuildError Nat → Reception
  | .ok number => .accepted number
  | .error _ => .refused

def receive (b : Builder) (parts : List Document.Part) : Reception × Builder :=
  match Document.ofParts parts with
  | .error _ => (.malformed, b)
  | .ok d => (.ofOffer (b.offer d).1, (b.offer d).2)

def receptions (b : Builder) : List (List Document.Part) → List Reception
  | [] => []
  | parts :: rest => (b.receive parts).1 :: (b.receive parts).2.receptions rest

theorem offerAll_receive (b : Builder) (calls : List (List Document.Part)) :
    b.offerAll (calls.filterMap fun parts => (Document.ofParts parts).toOption) =
      calls.foldl (fun b parts => (b.receive parts).2) b := by
  induction calls generalizing b with
  | nil => rfl
  | cons parts rest ih =>
    rw [List.foldl_cons, ← ih, List.filterMap_cons, receive]
    cases Document.ofParts parts <;> rfl

/-- One call with its parts in another order has the same answer. -/
theorem Reordered.receive (reordered : b.Reordered b' accepted accepted')
    {parts parts' : List Document.Part} (shuffled : parts.Perm parts') :
    (b.receive parts).1 = (b'.receive parts').1 ∧ ∃ documents documents',
      (b.receive parts).2.Reordered (b'.receive parts').2 documents documents' := by
  rcases Document.ofParts_reordered shuffled with ⟨e, e', failed, failed'⟩ | ⟨d, d', set, set', same⟩
  · simp only [Builder.receive, failed, failed', true_and]
    exact ⟨accepted, accepted', reordered⟩
  · simp only [Builder.receive, set, set']
    rcases reordered.offer (Document.coherent_of_built ⟨parts, set⟩) same with
      ⟨after, after', offered, offered', further⟩ | ⟨e, e', offered, offered'⟩
    · rw [offered, offered']
      exact ⟨rfl, _, _, further⟩
    · rw [offered, offered']
      exact ⟨rfl, accepted, accepted', reordered⟩

/-- Whatever calls follow, with their parts in another order each, they have the same answers. -/
theorem Reordered.receptions (reordered : b.Reordered b' accepted accepted')
    {calls calls' : List (List Document.Part)} (shuffled : List.Forall₂ List.Perm calls calls') :
    b.receptions calls = b'.receptions calls' ∧ ∃ documents documents',
      (calls.foldl (fun b parts => (b.receive parts).2) b).Reordered
        (calls'.foldl (fun b parts => (b.receive parts).2) b') documents documents' := by
  induction shuffled generalizing b b' accepted accepted' with
  | nil => exact ⟨rfl, accepted, accepted', reordered⟩
  | cons same _ ih =>
    obtain ⟨answer, _, _, after⟩ := reordered.receive same
    obtain ⟨answers, later⟩ := ih after
    exact ⟨by rw [Builder.receptions, Builder.receptions, answer, answers], later⟩

/-- What is sealed does not depend on the order in which the parts of a document were set. With
the parts of each call in another order, every document is set up and added just as before, under
the same number, and the sealed bytes are the same. -/
theorem shuffled_parts_seal_alike {calls calls' : List (List Document.Part)}
    (shuffled : List.Forall₂ List.Perm calls calls') :
    empty.receptions calls' = empty.receptions calls ∧
    (ofCalls calls').freeze.map SealedDatabase.bytes =
      (ofCalls calls).freeze.map SealedDatabase.bytes ∧
    ∀ j, (ofCalls calls').finish j = (ofCalls calls).finish j := by
  obtain ⟨answers, _, _, after⟩ := reordered_empty.receptions shuffled
  rw [← offerAll_receive, ← offerAll_receive] at after
  have frozen : (ofCalls calls').freeze = (ofCalls calls).freeze := after.freeze_eq.symm
  exact ⟨answers.symm, by rw [frozen], fun j => by rw [finish, finish, frozen]⟩

/-- Documents with several tags, parts that do not stand together, and a document that goes with
none of those before it. -/
def taggedCalls : List (List Document.Part) :=
  let tag := fun value => Document.Part.field "tag" (.bytes value) ⟨.filter, .varied⟩
  let size := fun value => Document.Part.field "size" (.bytes value) ⟨.full, .fixed⟩
  [[tag [2], size [7], tag [1], .payload [0], tag [1]],
    [size [1], size [2], .payload [1]],
    [.payload [2], tag [], size [1, 2]],
    [.payload [3], tag [1, 0], size [3]]]

/-- The documents may be set up from behind. The builder then has the tags of the first document in
another order, and seals the same. -/
theorem shuffled_parts_seal_alike_reverse :
    List.Forall₂ List.Perm taggedCalls (taggedCalls.map List.reverse) ∧
    ofCalls (taggedCalls.map List.reverse) ≠ ofCalls taggedCalls ∧
    empty.receptions taggedCalls = [.accepted 0, .malformed, .refused, .accepted 1] ∧
    empty.receptions (taggedCalls.map List.reverse) = empty.receptions taggedCalls ∧
    (ofCalls (taggedCalls.map List.reverse)).freeze.map SealedDatabase.bytes =
      (ofCalls taggedCalls).freeze.map SealedDatabase.bytes := by
  have shuffled : List.Forall₂ List.Perm taggedCalls (taggedCalls.map List.reverse) := by
    rw [List.forall₂_map_right_iff, List.forall₂_same]
    exact fun parts _ => parts.reverse_perm.symm
  obtain ⟨answers, bytes, _⟩ := shuffled_parts_seal_alike shuffled
  exact ⟨shuffled, by decide +kernel, by decide +kernel, answers, bytes⟩

end Builder

end DocStore
