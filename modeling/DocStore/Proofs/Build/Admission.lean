import DocStore.Build.Sealed
import DocStore.Proofs.Build.Documents

/-! Which documents a builder admits, said by the documents that it admitted before. The others
leave no trace: neither when they are refused nor in what is sealed later. -/
namespace DocStore

namespace Builder

variable {b after : Builder} {d : Document} {number : Nat}

/-- All that is asked of a document before any of it is recorded. Answers its payload. -/
def vet (b : Builder) (d : Document) : Except BuildError Bytes :=
  match d.payload with
  | none => .error .missingPayload
  | some payload =>
    if documentLimit ≤ b.size then .error (.tooManyDocuments documentLimit)
    else (check b.columns [] d.fields).map fun _ => payload

def recordAll (document : Nat) (fields : List FieldEntry) (columns : List Column) : List Column :=
  fields.foldl (fun columns entry => record document entry columns) columns

theorem add_eq (b : Builder) (d : Document) :
    b.add d = (b.vet d).map fun payload =>
      (b.size, ⟨b.payloads ++ [payload], recordAll b.size d.fields b.columns⟩) := by
  unfold add vet
  cases d.payload with
  | none => rfl
  | some payload =>
    by_cases full : documentLimit ≤ b.size
    · simp only [if_pos full]
      rfl
    · simp only [if_neg full]
      cases check b.columns [] d.fields <;> rfl

/-- Records a document in a builder that is changed in place, value by value and the payload
last. -/
def recordInPlace (document : Nat) (fields : List FieldEntry) (payload : Bytes) :
    StateM Builder Unit := do
  fields.forM fun entry =>
    modify fun b => { b with columns := record document entry b.columns }
  modify fun b => { b with payloads := b.payloads ++ [payload] }

def addInPlace (d : Document) : ExceptT BuildError (StateM Builder) Nat := do
  let b ← get
  let payload ← liftM (b.vet d)
  liftM (recordInPlace b.size d.fields payload)
  return b.size

/-- What adding a document in place answers, and the builder that it leaves. -/
def offer (b : Builder) (d : Document) : Except BuildError Nat × Builder :=
  (ExceptT.run (addInPlace d)).run b

theorem run_recordInPlace (document : Nat) (fields : List FieldEntry) (payload : Bytes)
    (b : Builder) : (recordInPlace document fields payload).run b =
      ((), ⟨b.payloads ++ [payload], recordAll document fields b.columns⟩) := by
  induction fields generalizing b with
  | nil => rfl
  | cons entry rest ih => exact ih { b with columns := record document entry b.columns }

theorem offer_eq (b : Builder) (d : Document) :
    b.offer d = match b.vet d with
      | .ok payload => (.ok b.size, ⟨b.payloads ++ [payload], recordAll b.size d.fields b.columns⟩)
      | .error e => (.error e, b) := by
  have run : b.offer d = ExceptT.bindCont (m := StateM Builder) (fun payload => do
      liftM (recordInPlace b.size d.fields payload)
      return b.size) (b.vet d) b := rfl
  cases asked : b.vet d with
  | error e =>
    rw [run, asked]
    rfl
  | ok payload =>
    rw [run, asked]
    change (Except.ok b.size, ((recordInPlace b.size d.fields payload).run b).2) = _
    rw [run_recordInPlace]

/-- What a document has to be like, to be accepted after some others: it has a payload, there is
room for it, its fields are indexed as in the documents before, and the values of a field that
has one length are as long as the first value of that field. -/
structure Admissible (accepted : List Document) (d : Document) : Prop where
  payload : d.payload.isSome = true
  room : accepted.length < documentLimit
  alike : ∀ entry ∈ d.fields, ∀ before ∈ accepted, ∀ other ∈ before.fields,
    other.name = entry.name → other.indexing = entry.indexing
  lengths : ∀ entry ∈ d.fields, entry.indexing.hasWidth = true →
    ∀ first ∈ ((accepted ++ [d]).flatMap (·.fields)).find? (·.name = entry.name),
      entry.value.length = first.value.length

instance (accepted : List Document) (d : Document) : Decidable (Admissible accepted d) :=
  decidable_of_iff
    (d.payload.isSome = true ∧ accepted.length < documentLimit ∧
      (∀ entry ∈ d.fields, ∀ before ∈ accepted, ∀ other ∈ before.fields,
        other.name = entry.name → other.indexing = entry.indexing) ∧
      ∀ entry ∈ d.fields, entry.indexing.hasWidth = true →
        ∀ first ∈ ((accepted ++ [d]).flatMap (·.fields)).find? (·.name = entry.name),
          entry.value.length = first.value.length)
    ⟨fun ⟨payload, room, alike, lengths⟩ => ⟨payload, room, alike, lengths⟩,
      fun ⟨payload, room, alike, lengths⟩ => ⟨payload, room, alike, lengths⟩⟩

section Checking

variable {columns : List Column} {fields : List FieldEntry} {widths : List (String × Nat)}

theorem problem?_of_fits {entry : FieldEntry}
    (alike : ∀ c, column? columns entry.name = some c → c.indexing = entry.indexing)
    (fits : entry.indexing.hasWidth = true →
      ∀ width, fixedWidth? columns widths entry.name = some width → width = entry.value.length) :
    problem? columns widths entry = none := by
  have known : ¬ (column? columns entry.name).any (·.indexing ≠ entry.indexing) = true := by
    cases column : column? columns entry.name with
    | none => simp
    | some c => simp [alike c column]
  unfold problem?
  dsimp only
  rw [if_neg known]
  split
  · rename_i wide
    cases fixed : fixedWidth? columns widths entry.name with
    | none =>
      unfold fixedWidth? at fixed
      rw [fixed]
    | some width =>
      have same := fits wide width fixed
      unfold fixedWidth? at fixed
      rw [fixed]
      exact if_pos same
  · rfl

theorem fixedWidth?_later {entry : FieldEntry} {name : String} {width : Nat}
    (known : fixedWidth? columns (widths ++ widthsOf entry) name = some width) :
    fixedWidth? columns widths name = some width ∨
      entry.name = name ∧ entry.indexing.hasWidth = true ∧ width = entry.value.length := by
  unfold fixedWidth? at *
  cases column : (column? columns name).bind (·.width) with
  | some other =>
    rw [column] at known
    exact Or.inl known
  | none =>
    rw [column] at known
    change (widths ++ widthsOf entry).lookup name = some width at known
    rw [List.lookup_append, Option.or_eq_some_iff] at known
    rcases known with before | ⟨_, here⟩
    · exact Or.inl before
    · unfold widthsOf at here
      split at here
      · rename_i wide
        by_cases same : name = entry.name
        · subst same
          simp only [List.lookup_cons, beq_self_eq_true, Option.some.injEq] at here
          exact Or.inr ⟨rfl, wide, here.symm⟩
        · have apart : (name == entry.name) = false := by simpa using same
          simp [List.lookup_cons, apart] at here
      · contradiction

/-- The check asks for no more than it establishes. -/
theorem check_of_fits
    (alike : ∀ entry ∈ fields, ∀ c, column? columns entry.name = some c →
      c.indexing = entry.indexing)
    (fits : ∀ entry ∈ fields, entry.indexing.hasWidth = true →
      ∀ width, fixedWidth? columns widths entry.name = some width → width = entry.value.length)
    (pairs : fields.Pairwise fun x y => x.name = y.name → x.indexing.hasWidth = true →
      y.indexing.hasWidth = true → x.value.length = y.value.length) :
    check columns widths fields = .ok () := by
  induction fields generalizing widths with
  | nil => rfl
  | cons entry rest ih =>
    obtain ⟨now, later⟩ := List.forall_mem_cons.mp alike
    obtain ⟨first, others⟩ := List.forall_mem_cons.mp fits
    obtain ⟨equal, pairs⟩ := List.pairwise_cons.mp pairs
    rw [check, problem?_of_fits now first]
    refine ih later ?_ pairs
    intro other inside wide width known
    rcases fixedWidth?_later known with before | ⟨same, also, rfl⟩
    · exact others other inside wide width before
    · exact equal other inside same also wide

end Checking

variable {accepted : List Document}

theorem vet_eq_ok {payload : Bytes} : b.vet d = .ok payload ↔
    d.payload = some payload ∧ b.size < documentLimit ∧ check b.columns [] d.fields = .ok () := by
  unfold vet
  cases d.payload with
  | none => simp
  | some own =>
    by_cases full : documentLimit ≤ b.size
    · simp [full, Nat.not_lt.mpr full]
    · cases check b.columns [] d.fields <;> simp [full, Nat.lt_of_not_le full, Except.map]

theorem mem_entriesOf_of_field {documents : List Document} {entry : FieldEntry}
    (listed : d ∈ documents) (inside : entry ∈ d.fields) :
    ∃ number, (number, entry) ∈ entriesOf documents := by
  obtain ⟨number, within, rfl⟩ := List.mem_iff_getElem.mp listed
  exact ⟨number, mem_entriesOf.mpr ⟨_, List.getElem?_eq_getElem within, inside⟩⟩

/-- The first value of a field in some documents and one more. -/
theorem exists_first {entry : FieldEntry} (inside : entry ∈ d.fields) :
    ∃ first, ((accepted ++ [d]).flatMap (·.fields)).find? (·.name = entry.name) = some first := by
  rw [← Option.isSome_iff_exists, List.find?_isSome]
  refine ⟨entry, List.mem_flatMap.mpr ⟨d, ?_, inside⟩, by simp⟩
  exact List.mem_append_right _ (List.mem_singleton_self d)

/-- A document goes with those before it when all their values are alike. -/
theorem admissible_of_uniform (uniform : Uniform (entriesOf (accepted ++ [d])))
    (own : d.payload.isSome = true) (room : accepted.length < documentLimit) :
    Admissible accepted d := by
  have listed : d ∈ accepted ++ [d] := List.mem_append_right _ (List.mem_singleton_self d)
  refine ⟨own, room, ?_, ?_⟩
  · intro entry inside before earlier other stored same
    obtain ⟨n, first⟩ := mem_entriesOf_of_field (List.mem_append_left [d] earlier) stored
    obtain ⟨m, second⟩ := mem_entriesOf_of_field listed inside
    exact (uniform _ first _ second same).1
  · intro entry inside wide first found
    obtain ⟨before, earlier, stored⟩ := List.mem_flatMap.mp (List.mem_of_find?_eq_some found)
    obtain ⟨n, known⟩ := mem_entriesOf_of_field earlier stored
    obtain ⟨m, new⟩ := mem_entriesOf_of_field listed inside
    have same : first.name = entry.name := by simpa using List.find?_some found
    exact (uniform _ new _ known same.symm).2 wide

theorem Stores.admissible (stores : b.Stores accepted) (coherent : d.Coherent) {payload : Bytes}
    (asked : b.vet d = .ok payload) : Admissible accepted d := by
  obtain ⟨own, room, checked⟩ := vet_eq_ok.mp asked
  refine admissible_of_uniform ?_ (by rw [own]; rfl) (stores.size ▸ room)
  rw [entriesOf_concat]
  exact uniform_append stores.collect stores.uniform checked coherent accepted.length

/-- Where a field has a value already, its first one is a value of an earlier document. -/
theorem first_of_stored {document : Nat} {stored first : FieldEntry} {name : String}
    (before : (document, stored) ∈ entriesOf accepted) (named : stored.name = name)
    (found : ((accepted ++ [d]).flatMap (·.fields)).find? (·.name = name) = some first) :
    ∃ number, (number, first) ∈ entriesOf accepted := by
  obtain ⟨holder, numbered, inside⟩ := mem_entriesOf.mp before
  have known : ((accepted.flatMap (·.fields)).find? (·.name = name)).isSome = true := by
    rw [List.find?_isSome]
    refine ⟨stored, List.mem_flatMap.mpr ⟨holder, List.mem_of_getElem? numbered, inside⟩, ?_⟩
    exact decide_eq_true named
  obtain ⟨other, hit⟩ := Option.isSome_iff_exists.mp known
  rw [List.flatMap_append, List.find?_append, hit] at found
  cases found
  obtain ⟨owner, listed, field⟩ := List.mem_flatMap.mp (List.mem_of_find?_eq_some hit)
  exact mem_entriesOf_of_field listed field

/-- The length that a column has kept is that of the first value of its field. -/
theorem Stores.width_eq (stores : b.Stores accepted) {entry first : FieldEntry} {width : Nat}
    (wide : entry.indexing.hasWidth = true)
    (alike : ∀ c, column? b.columns entry.name = some c → c.indexing = entry.indexing)
    (fixed : fixedWidth? b.columns [] entry.name = some width)
    (found : ((accepted ++ [d]).flatMap (·.fields)).find? (·.name = entry.name) = some first) :
    width = first.value.length := by
  cases column : column? b.columns entry.name with
  | none => simp [fixedWidth?, column] at fixed
  | some c =>
    have kept : c.width = some width := by simpa [fixedWidth?, column] using fixed
    have named : c.name = entry.name := by simpa using List.find?_some column
    have first_named : first.name = entry.name := by simpa using List.find?_some found
    have collects := stores.collect.each c (List.mem_of_find?_eq_some column)
    obtain ⟨document, value, posted, last⟩ := collects.width (alike c column ▸ wide)
    obtain ⟨recorded, stored, own, rfl⟩ := (collects.postings document value).mp posted
    obtain ⟨item, declaring, same, declared⟩ := collects.declared
    obtain ⟨number, listed⟩ := first_of_stored stored (own.trans named) found
    have indexed := (stores.uniform _ declaring _ stored (same.trans own.symm)).1
    have recorded_wide : recorded.indexing.hasWidth = true := by
      rw [← indexed, declared, alike c column]
      exact wide
    have lengths := (stores.uniform _ stored _ listed
      (own.trans (named.trans first_named.symm))).2 recorded_wide
    exact (Option.some.inj (kept.symm.trans last)).trans lengths

theorem Stores.asked (stores : b.Stores accepted) (admissible : Admissible accepted d) :
    ∃ payload, b.vet d = .ok payload := by
  obtain ⟨payload, own⟩ := Option.isSome_iff_exists.mp admissible.payload
  refine ⟨payload, vet_eq_ok.mpr ⟨own, stores.size ▸ admissible.room, ?_⟩⟩
  have alike : ∀ entry ∈ d.fields, ∀ c, column? b.columns entry.name = some c →
      c.indexing = entry.indexing := by
    intro entry inside c column
    have named : c.name = entry.name := by simpa using List.find?_some column
    obtain ⟨⟨number, item⟩, declaring, same, declared⟩ :=
      (stores.collect.each c (List.mem_of_find?_eq_some column)).declared
    obtain ⟨before, numbered, field⟩ := mem_entriesOf.mp declaring
    rw [← declared]
    exact admissible.alike entry inside before (List.mem_of_getElem? numbered) item field
      (same.trans named)
  refine check_of_fits alike ?_ ?_
  · intro entry inside wide width fixed
    obtain ⟨first, found⟩ := @exists_first d accepted _ inside
    rw [stores.width_eq wide (alike entry inside) fixed found]
    exact (admissible.lengths entry inside wide first found).symm
  · refine List.pairwise_of_forall_mem_list fun x first y second same wide also => ?_
    obtain ⟨value, found⟩ := @exists_first d accepted _ first
    rw [admissible.lengths x first wide value found,
      admissible.lengths y second also value (same ▸ found)]

def offerAll (b : Builder) (documents : List Document) : Builder :=
  documents.foldl (fun b d => (b.offer d).2) b

def taken (b : Builder) : List Document → List Document
  | [] => []
  | d :: rest =>
    match b.offer d with
    | (.ok _, after) => d :: after.taken rest
    | (.error _, after) => after.taken rest

theorem offerAll_cons (b : Builder) (d : Document) (rest : List Document) :
    b.offerAll (d :: rest) = (b.offer d).2.offerAll rest := rfl

/-- One offer: either the document goes with those before and is stored, or nothing changes. -/
theorem Stores.offer (stores : b.Stores accepted) (coherent : d.Coherent) :
    (Admissible accepted d ∧ ∃ after, b.offer d = (.ok accepted.length, after) ∧
      b.add d = .ok (accepted.length, after) ∧ after.Stores (accepted ++ [d])) ∨
    (¬ Admissible accepted d ∧ ∃ e, b.offer d = (.error e, b)) := by
  by_cases admissible : Admissible accepted d
  · obtain ⟨payload, asked⟩ := stores.asked admissible
    have added : b.add d = .ok (accepted.length,
        ⟨b.payloads ++ [payload], recordAll b.size d.fields b.columns⟩) := by
      rw [add_eq, asked, ← stores.size]
      rfl
    refine Or.inl ⟨admissible, _, ?_, added, stores.add coherent added⟩
    rw [offer_eq, asked, ← stores.size]
  · refine Or.inr ⟨admissible, ?_⟩
    cases asked : b.vet d with
    | ok payload => exact absurd (stores.admissible coherent asked) admissible
    | error e => exact ⟨e, by rw [offer_eq, asked]⟩

/-- Whatever a builder is offered, it becomes what the accepted documents alone make of it. -/
theorem Stores.offerAll (stores : b.Stores accepted) {attempts : List Document}
    (coherent : ∀ d ∈ attempts, d.Coherent) :
    (b.taken attempts).foldlM (fun b d => return (← b.add d).2) b = .ok (b.offerAll attempts) ∧
      (b.offerAll attempts).Stores (accepted ++ b.taken attempts) := by
  induction attempts generalizing b accepted with
  | nil => exact ⟨rfl, by simpa [Builder.offerAll, taken] using stores⟩
  | cons d rest ih =>
    obtain ⟨now, later⟩ := List.forall_mem_cons.mp coherent
    rcases stores.offer now with ⟨_, after, offered, added, stored⟩ | ⟨_, e, offered⟩
    · obtain ⟨alone, whole⟩ := ih stored later
      rw [offerAll_cons, taken, offered]
      refine ⟨?_, by simpa using whole⟩
      rw [List.foldlM_cons, added]
      exact alone
    · obtain ⟨alone, whole⟩ := ih stores later
      rw [offerAll_cons, taken, offered]
      exact ⟨alone, whole⟩

/-- A refused document leaves no trace. Whatever a builder was offered before, it accepts a
document just if that goes with the accepted ones, under the next number, and else is left as it
was; and it seals what the accepted documents alone would have given. -/
theorem offers_leave_no_trace (attempts : List Document)
    (built : ∀ d ∈ attempts, d.Built) :
    (∀ d : Document, d.Built →
      ((∃ after, (empty.offerAll attempts).offer d =
          (.ok (empty.taken attempts).length, after)) ↔ Admissible (empty.taken attempts) d) ∧
      (¬ Admissible (empty.taken attempts) d →
        ∃ e, (empty.offerAll attempts).offer d = (.error e, empty.offerAll attempts))) ∧
    ∃ alone, ofDocuments (empty.taken attempts) = .ok alone ∧
      (empty.offerAll attempts).freeze.map SealedDatabase.bytes =
        alone.freeze.map SealedDatabase.bytes ∧
      ∀ j, (empty.offerAll attempts).finish j = alone.finish j := by
  have coherent : ∀ d ∈ attempts, d.Coherent := by
    intro d inside
    exact Document.coherent_of_built (built d inside)
  obtain ⟨alone, stores⟩ := stores_empty.offerAll coherent
  refine ⟨?_, _, alone, rfl, fun _ => rfl⟩
  intro d built
  rcases stores.offer (Document.coherent_of_built built) with
    ⟨admissible, after, offered, _⟩ | ⟨inadmissible, e, offered⟩
  · exact ⟨⟨fun _ => admissible, fun _ => ⟨after, offered⟩⟩, fun not => absurd admissible not⟩
  · refine ⟨⟨?_, fun admissible => absurd admissible inadmissible⟩, fun _ => ⟨e, offered⟩⟩
    rintro ⟨after, accepting⟩
    cases offered.symm.trans accepting

def fixedValues (name : String) (values : List Bytes) : Document :=
  ⟨values.map fun value => ⟨name, value, ⟨.filter, .fixed⟩⟩, some []⟩

/-- A document that is refused does not fix the length of a field that it was the first to have:
after values of the lengths one and two, a value of the length two is accepted. -/
theorem offers_leave_no_trace_lengths :
    (∀ d ∈ [fixedValues "f" [[1]], fixedValues "g" [[1], [1, 2]]], d.Built) ∧
    (fixedValues "g" [[1, 2]]).Built ∧
    empty.taken [fixedValues "f" [[1]], fixedValues "g" [[1], [1, 2]]] =
      [fixedValues "f" [[1]]] ∧
    (∃ after, (empty.offerAll [fixedValues "f" [[1]], fixedValues "g" [[1], [1, 2]]]).offer
      (fixedValues "g" [[1, 2]]) = (.ok 1, after)) ∧
    ∃ alone, ofDocuments [fixedValues "f" [[1]]] = .ok alone ∧
      (empty.offerAll [fixedValues "f" [[1]], fixedValues "g" [[1], [1, 2]]]).freeze.map
        SealedDatabase.bytes = alone.freeze.map SealedDatabase.bytes := by
  have one : (fixedValues "g" [[1, 2]]).Built :=
    ⟨[.field "g" (.bytes [1, 2]) ⟨.filter, .fixed⟩, .payload []], rfl⟩
  have built : ∀ d ∈ [fixedValues "f" [[1]], fixedValues "g" [[1], [1, 2]]], d.Built := by
    intro d inside
    simp only [List.mem_cons, List.not_mem_nil, or_false] at inside
    rcases inside with rfl | rfl
    · exact ⟨[.field "f" (.bytes [1]) ⟨.filter, .fixed⟩, .payload []], rfl⟩
    · exact ⟨[.field "g" (.bytes [1]) ⟨.filter, .fixed⟩,
        .field "g" (.bytes [1, 2]) ⟨.filter, .fixed⟩, .payload []], rfl⟩
  have accepted : empty.taken [fixedValues "f" [[1]], fixedValues "g" [[1], [1, 2]]] =
      [fixedValues "f" [[1]]] := by decide +kernel
  obtain ⟨offered, alone, collected, bytes, _⟩ := offers_leave_no_trace _ built
  rw [accepted] at offered collected
  exact ⟨built, one, accepted, (offered _ one).1.mpr (by decide +kernel), alone, collected, bytes⟩

end Builder

end DocStore
