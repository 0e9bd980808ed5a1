import DocStore.Proofs.Build.Columns
import DocStore.Proofs.Build.Parts

/-! Documents that a builder accepts. What the checks establish is that all values of a field are
indexed alike, have one length where that is asked for, and are one for each document where the
field is sortable. -/
namespace DocStore

namespace Builder

variable {columns : List Column} {fields : List FieldEntry} {widths : List (String × Nat)}

def fixedWidth? (columns : List Column) (widths : List (String × Nat)) (name : String) :
    Option Nat :=
  (column? columns name).bind (·.width) <|> widths.lookup name

theorem problem?_eq_none {entry : FieldEntry} (accepted : problem? columns widths entry = none) :
    (∀ c, column? columns entry.name = some c → c.indexing = entry.indexing) ∧
      (entry.indexing.hasWidth = true →
        ∀ width, fixedWidth? columns widths entry.name = some width → width = entry.value.length) := by
  unfold problem? at accepted
  dsimp only at accepted
  split at accepted
  · contradiction
  · rename_i alike
    constructor
    · intro c known
      simpa [known] using alike
    · intro wide width known
      rw [if_pos wide] at accepted
      unfold fixedWidth? at known
      simp only [known] at accepted
      split at accepted
      · assumption
      · contradiction

theorem fixedWidth?_append {name : String} {width : Nat} (more : List (String × Nat))
    (known : fixedWidth? columns widths name = some width) :
    fixedWidth? columns (widths ++ more) name = some width := by
  unfold fixedWidth? at *
  cases column : (column? columns name).bind (·.width) with
  | some other => simpa [column] using known
  | none =>
    rw [column] at known
    change widths.lookup name = some width at known
    simp [List.lookup_append, known]

theorem fixedWidth?_first {entry : FieldEntry} (wide : entry.indexing.hasWidth = true)
    (fits : ∀ width, fixedWidth? columns widths entry.name = some width →
      width = entry.value.length) :
    fixedWidth? columns (widths ++ widthsOf entry) entry.name = some entry.value.length := by
  cases known : fixedWidth? columns widths entry.name with
  | some width => exact fits width known ▸ fixedWidth?_append _ known
  | none =>
    unfold fixedWidth? at *
    simp only [Option.orElse_eq_orElse, Option.orElse_eq_or, Option.or_eq_none_iff] at known ⊢
    rw [known.1, List.lookup_append, known.2, widthsOf, if_pos wide]
    simp

/-- What the check of a document establishes. -/
theorem check_eq_ok (checked : check columns widths fields = .ok ()) :
    (∀ entry ∈ fields, ∀ c, column? columns entry.name = some c → c.indexing = entry.indexing) ∧
    (∀ entry ∈ fields, entry.indexing.hasWidth = true →
      ∀ width, fixedWidth? columns widths entry.name = some width → width = entry.value.length) ∧
    fields.Pairwise fun x y => x.name = y.name → x.indexing.hasWidth = true →
      y.indexing.hasWidth = true → x.value.length = y.value.length := by
  induction fields generalizing widths with
  | nil => simp
  | cons entry rest ih =>
    rw [check] at checked
    split at checked
    · contradiction
    · rename_i accepted
      obtain ⟨alike, fits⟩ := problem?_eq_none accepted
      obtain ⟨others, later, pairs⟩ := ih checked
      refine ⟨List.forall_mem_cons.mpr ⟨alike, others⟩, List.forall_mem_cons.mpr ⟨fits, ?_⟩,
        List.pairwise_cons.mpr ⟨?_, pairs⟩⟩
      · intro other inside wide width known
        exact later other inside wide width (fixedWidth?_append _ known)
      · intro other inside same wide also
        exact later other inside also _ (same ▸ fixedWidth?_first wide (fits wide))

variable {documents : List Document} {entries : List (Nat × FieldEntry)} {b b' : Builder}
  {d : Document}

def entriesOf (documents : List Document) : List (Nat × FieldEntry) :=
  documents.zipIdx.flatMap fun (d, document) => d.fields.map (document, ·)

theorem mem_entriesOf {document : Nat} {entry : FieldEntry} :
    (document, entry) ∈ entriesOf documents ↔
      ∃ d, documents[document]? = some d ∧ entry ∈ d.fields := by
  simp only [entriesOf, List.mem_flatMap, List.mem_map, Prod.mk.injEq]
  constructor
  · rintro ⟨⟨d, _⟩, listed, _, inside, rfl, rfl⟩
    exact ⟨d, List.mem_zipIdx_iff_getElem?.mp listed, inside⟩
  · rintro ⟨d, known, inside⟩
    exact ⟨(d, document), List.mem_zipIdx_iff_getElem?.mpr known, entry, inside, rfl, rfl⟩

theorem entriesOf_concat (documents : List Document) (d : Document) :
    entriesOf (documents ++ [d]) = entriesOf documents ++ d.fields.map (documents.length, ·) := by
  simp [entriesOf, List.zipIdx_append]

/-- The values of a field are indexed alike, and have one length where that is asked for. -/
def Uniform (entries : List (Nat × FieldEntry)) : Prop :=
  ∀ x ∈ entries, ∀ y ∈ entries, x.2.name = y.2.name → x.2.indexing = y.2.indexing ∧
    (x.2.indexing.hasWidth = true → x.2.value.length = y.2.value.length)

theorem column?_of_mem {c : Column} (named : Named columns) (inside : c ∈ columns) :
    column? columns c.name = some c := by
  cases known : column? columns c.name with
  | none =>
    have apart := List.find?_eq_none.mp known c inside
    simp at apart
  | some other =>
    have same : other.name = c.name := by simpa using List.find?_some known
    refine congrArg some (List.Pairwise.forall_of_forall_of_flip
      (R := fun a b : Column => a.name = b.name → a = b) (fun _ _ _ => rfl) ?_ ?_
      (List.mem_of_find?_eq_some known) inside same)
    · exact named.imp fun order same => absurd (same ▸ order) (String.lt_irrefl _)
    · exact named.imp fun order same => absurd (same ▸ order) (String.lt_irrefl _)

/-- A field value that was checked against the columns is like the values in them. -/
theorem like_collected (collect : Collect columns entries) (uniform : Uniform entries)
    (checked : check columns [] fields = .ok ()) {x : Nat × FieldEntry} (before : x ∈ entries)
    {y : FieldEntry} (inside : y ∈ fields) (same : x.2.name = y.name) :
    x.2.indexing = y.indexing ∧
      (x.2.indexing.hasWidth = true → x.2.value.length = y.value.length) := by
  obtain ⟨alike, fits, _⟩ := check_eq_ok checked
  obtain ⟨c, listed, named⟩ := collect.all x before
  have known : column? columns y.name = some c :=
    same ▸ named ▸ column?_of_mem collect.named listed
  obtain ⟨⟨item, collected, again, declared⟩, _, _, postings, width⟩ := collect.each c listed
  obtain ⟨equal, _⟩ := uniform x before item collected (named.symm.trans again.symm)
  have indexed : x.2.indexing = y.indexing :=
    (equal.trans declared).trans (alike y inside c known)
  refine ⟨indexed, fun wide => ?_⟩
  have declaredWide : c.indexing.hasWidth = true := by
    rw [← declared, ← equal]
    exact wide
  obtain ⟨number, value, posted, fixed⟩ := width declaredWide
  obtain ⟨entry, stored, own, rfl⟩ := (postings number value).mp posted
  have lengths := (uniform x before (number, entry) stored (named.symm.trans own.symm)).2 wide
  refine lengths.trans (fits y inside (indexed ▸ wide) _ ?_)
  simp [fixedWidth?, known, fixed]

theorem uniform_append (collect : Collect columns entries) (uniform : Uniform entries)
    (checked : check columns [] d.fields = .ok ()) (coherent : d.Coherent) (document : Nat) :
    Uniform (entries ++ d.fields.map (document, ·)) := by
  obtain ⟨_, _, pairs⟩ := check_eq_ok checked
  have lengths : ∀ x ∈ d.fields, ∀ y ∈ d.fields, x.name = y.name →
      x.indexing.hasWidth = true → y.indexing.hasWidth = true →
        x.value.length = y.value.length := by
    refine List.Pairwise.forall_of_forall_of_flip (fun _ _ _ _ _ => rfl) pairs ?_
    exact pairs.imp fun equal same first second => (equal same.symm second first).symm
  intro x first y second same
  rcases List.mem_append.mp first with before | new
  · rcases List.mem_append.mp second with also | added
    · exact uniform x before y also same
    · obtain ⟨entry, inside, rfl⟩ := List.mem_map.mp added
      exact like_collected collect uniform checked before inside same
  · obtain ⟨entry, inside, rfl⟩ := List.mem_map.mp new
    rcases List.mem_append.mp second with also | added
    · obtain ⟨alike, equal⟩ := like_collected collect uniform checked also inside same.symm
      exact ⟨alike.symm, fun wide => (equal (alike ▸ wide)).symm⟩
    · obtain ⟨other, member, rfl⟩ := List.mem_map.mp added
      have alike := coherent.alike inside member same
      exact ⟨alike, fun wide => lengths entry inside other member same wide (alike ▸ wide)⟩

def ofDocuments (documents : List Document) : Except BuildError Builder :=
  documents.foldlM (fun b d => return (← b.add d).2) empty

/-- A builder stores just some documents. -/
structure Stores (b : Builder) (documents : List Document) : Prop where
  payloads : b.payloads.map some = documents.map (·.payload)
  limit : documents.length ≤ documentLimit
  coherent : ∀ d ∈ documents, d.Coherent
  collect : Collect b.columns (entriesOf documents)
  uniform : Uniform (entriesOf documents)

theorem stores_empty : Builder.empty.Stores [] where
  payloads := rfl
  limit := Nat.zero_le _
  coherent _ none := absurd none List.not_mem_nil
  collect := collect_nil
  uniform _ none := absurd none List.not_mem_nil

theorem Stores.size (stores : b.Stores documents) : b.size = documents.length := by
  simpa [Builder.size] using congrArg List.length stores.payloads

theorem Stores.add {number : Nat} (stores : b.Stores documents) (coherent : d.Coherent)
    (added : b.add d = .ok (number, b')) : b'.Stores (documents ++ [d]) := by
  unfold Builder.add at added
  cases known : d.payload with
  | none =>
    rw [known] at added
    contradiction
  | some payload =>
    simp only [known] at added
    by_cases full : documentLimit ≤ b.size
    · rw [if_pos full] at added
      contradiction
    rw [if_neg full] at added
    obtain ⟨_, checked, done⟩ := bind_eq_ok.mp added
    cases done
    have size := stores.size
    refine ⟨?_, ?_, ?_, ?_, ?_⟩
    · simp [stores.payloads, known]
    · rw [List.length_append, List.length_singleton]
      omega
    · intro other listed
      rcases List.mem_append.mp listed with before | last
      · exact stores.coherent other before
      · exact List.mem_singleton.mp last ▸ coherent
    · rw [entriesOf_concat, ← size]
      exact stores.collect.recordAll b.size d.fields
    · rw [entriesOf_concat]
      exact uniform_append stores.collect stores.uniform checked coherent documents.length

/-- A builder that accepted some documents stores just these. -/
theorem stores_of_documents (coherent : ∀ d ∈ documents, d.Coherent)
    (accepted : ofDocuments documents = .ok b) : b.Stores documents := by
  have steps : ∀ (rest done : List Document) (before : Builder), before.Stores done →
      (∀ d ∈ rest, d.Coherent) → rest.foldlM (fun b d => return (← b.add d).2) before = .ok b →
        b.Stores (done ++ rest) := by
    intro rest
    induction rest with
    | nil =>
      intro done before stores _ same
      cases same
      simpa using stores
    | cons d rest ih =>
      intro done before stores coherent same
      rw [List.foldlM_cons] at same
      obtain ⟨after, first, later⟩ := bind_eq_ok.mp same
      obtain ⟨⟨number, next⟩, added, only⟩ := bind_eq_ok.mp first
      cases only
      have stored := stores.add (coherent d List.mem_cons_self) added
      have whole := ih (done ++ [d]) next stored
        (fun d inside => coherent d (List.mem_cons_of_mem _ inside)) later
      simpa using whole
  exact steps documents [] empty stores_empty coherent accepted

theorem stores_of_built (built : ∀ d ∈ documents, d.Built)
    (accepted : ofDocuments documents = .ok b) : b.Stores documents := by
  apply stores_of_documents _ accepted
  intro d inside
  exact Document.coherent_of_built (built d inside)

end Builder

end DocStore
