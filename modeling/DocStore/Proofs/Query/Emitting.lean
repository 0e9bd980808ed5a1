import DocStore.Proofs.Index.Sort
import DocStore.Proofs.Query.Serving
import DocStore.Query.Emission

/-! Emission goes through one list of documents that only the source, the orders and the set
determine. A run that is refused a set has gone through the front of that list. -/
namespace DocStore

structure Source.Sound (source : Source) : Prop where
  small : source.documents + 63 < sizeLimit
  sorts : ∀ field index, source.sort? field = some index → index.Safe
  stored : ∀ document < source.documents, ∃ payload, source.payload? document = .ok (some payload)

def ArraySet.ofMembers (size : Nat) (members : List Nat) : ArraySet :=
  (members.foldlM insert (empty size)).toOption.getD (empty size)

theorem ArraySet.ofMembers_eq {size : Nat} {members : List Nat} (inside : ∀ i ∈ members, i < size) :
    members.foldlM insert (empty size) = .ok (ofMembers size members) ∧
      (ofMembers size members).size = size ∧ (ofMembers size members).Trimmed ∧
      ∀ i, i ∈ ofMembers size members ↔ i ∈ members := by
  obtain ⟨set, filled, sizes, trims, same⟩ := foldlM_insert (s := empty size) inside
  have eq : ofMembers size members = set := by
    rw [ofMembers, filled]
    rfl
  rw [eq]
  exact ⟨filled, sizes, trims (trimmed_empty size), fun i => by simp [same, not_mem_empty]⟩

theorem ArraySet.erase_ofMembers {size : Nat} {members : List Nat}
    (inside : ∀ i ∈ members, i < size) :
    members.foldl erase (ofMembers size members) = empty size := by
  obtain ⟨_, sizes, trimmed, same⟩ := ofMembers_eq inside
  obtain ⟨after, trims, left⟩ := foldl_erase (ofMembers size members) members
  refine eq_of_mem (trims trimmed) (trimmed_empty size) (after.trans sizes) fun i => ?_
  rw [left, same]
  simp [not_mem_empty]

namespace Emission

variable {ρ : Type} {source : Source} {processor : Processor ρ} {s : Run ρ} {docs : List Nat}
  {base : Arena}

def ties (index : SortIndex) (direction : Direction) (docs : DocSet) : List (List Nat) :=
  ((index.groups direction docs).toOption.getD []).map (·.2) ++
    [(index.unrankedOf docs).toOption.getD []]

/-- The documents of a set in the order in which they are emitted. -/
def listing (source : Source) : List Order → DocSet → List Nat
  | [], docs => docs.toList
  | order :: rest, docs =>
    match source.sort? order.field with
    | none => listing source rest docs
    | some index => (ties index order.direction docs).flatMap fun members =>
        if rest.isEmpty || members.length < 2 then members
        else listing source rest (.stored (ArraySet.ofMembers source.documents members))

/-- A computation emits a list of documents, or is refused when it has emitted the front of it. -/
def Delivers (source : Source) (processor : Processor ρ) (x : Running ρ Bool) (s : Run ρ)
    (docs : List Nat) : Prop :=
  Meets x s
    (fun more s' => Emits source processor s docs more s' ∧
      s'.scratch.outstanding = s.scratch.outstanding)
    fun _ s' => ∃ front more, front <+: docs ∧ Emits source processor s front more s'

theorem emitOne_delivers {document : Nat} {payload : View}
    (stored : source.payload? document = .ok (some payload)) :
    Delivers source processor (emitOne source processor document) s [document] := by
  unfold emitOne Delivers
  rw [Meets.bind]
  cases offered : s.pager.offer with
  | mk admission pager =>
    rw [Running.offer_meets offered]
    cases admission with
    | skip => exact Meets.pure.mpr ⟨Emits.skip offered Emits.refl, rfl⟩
    | stop =>
      obtain ⟨done, rfl⟩ := Pager.offer_stop offered
      exact Meets.pure.mpr ⟨Emits.full done (Run.Quiet.refl s), rfl⟩
    | take =>
      rw [Meets.bind, Meets.lift stored]
      dsimp only
      rw [Meets.bind]
      cases called : processor document payload (s.engine, s.own) with
      | mk more after =>
        obtain ⟨engine, own⟩ := after
        refine (@Running.process_meets _ { s with pager } _ _ _ _ _ _ _ _ called).mpr ?_
        have quiet := Run.Quiet.refl s
        cases more with
        | false =>
          exact Meets.pure.mpr ⟨Emits.stop offered stored quiet called (Run.Quiet.refl _), rfl⟩
        | true =>
          rw [if_pos rfl, Meets.bind, Running.isDone_meets, Meets.pure]
          refine ⟨Emits.take offered stored quiet called ?_, rfl⟩
          cases done : pager.isDone with
          | true => exact Emits.full done (Run.Quiet.refl _)
          | false => exact Emits.refl

theorem emitAll_delivers (stored : ∀ document ∈ docs, ∃ payload,
    source.payload? document = .ok (some payload)) :
    Delivers source processor (emitAll source processor docs) s docs := by
  induction docs generalizing s with
  | nil => exact Meets.pure.mpr ⟨Emits.refl, rfl⟩
  | cons document rest ih =>
    obtain ⟨payload, here⟩ := stored document List.mem_cons_self
    refine Meets.bind.mpr ((emitOne_delivers here).mono ?_ ?_)
    · rintro more t ⟨first, count⟩
      cases more with
      | false => exact Meets.pure.mpr ⟨first.append_ended rest, count⟩
      | true =>
        refine (ih fun document later => stored document (List.mem_cons_of_mem _ later)).mono ?_ ?_
        · rintro more u ⟨second, same⟩
          exact ⟨first.append second, same.trans count⟩
        · rintro _ u ⟨front, more, inside, second⟩
          exact ⟨document :: front, more, (List.cons_prefix_cons).mpr ⟨rfl, inside⟩,
            first.append second⟩
    · rintro _ t ⟨front, more, inside, first⟩
      exact ⟨front, more, inside.trans ⟨rest, rfl⟩, first⟩

section Groups

variable {size : Nat} {held : Option ArraySet} {members : List Nat} {groups : List (List Nat)}

def count (held : Option ArraySet) : Nat := held.elim 0 fun _ => 1

def Vacant (size : Nat) (held : Option ArraySet) : Prop := ∀ set ∈ held, set = ArraySet.empty size

theorem vacant_none (size : Nat) : Vacant size none := by
  rintro _ ⟨⟩

/-- A computation delivers a list of documents with a set that it may be given or may borrow. -/
def DeliversWith (source : Source) (processor : Processor ρ)
    (x : Running ρ (Bool × Option ArraySet)) (s : Run ρ) (held : Option ArraySet)
    (docs : List Nat) : Prop :=
  Meets x s
    (fun answer s' => Emits source processor s docs answer.1 s' ∧ Vacant source.documents answer.2 ∧
      s'.scratch.outstanding + count held = s.scratch.outstanding + count answer.2)
    fun _ s' => ∃ front more, front <+: docs ∧ Emits source processor s front more s'

/-- What is done with a vacant set leaves it vacant. -/
theorem refined_meets {refined : DocSet → Running ρ Bool}
    (inside : ∀ i ∈ members, i < source.documents)
    (inner : Delivers source processor
      (refined (.stored (ArraySet.ofMembers source.documents members))) s docs) :
    Meets (do
      let filled ← (members.foldlM ArraySet.insert (ArraySet.empty source.documents) :
        Except Fault ArraySet)
      let more ← refined (.stored filled)
      return (more, members.foldl ArraySet.erase filled)) s
      (fun answer s' => Emits source processor s docs answer.1 s' ∧
        answer.2 = ArraySet.empty source.documents ∧
        s'.scratch.outstanding = s.scratch.outstanding)
      fun _ s' => ∃ front more, front <+: docs ∧ Emits source processor s front more s' := by
  rw [Meets.bind, Meets.lift (ArraySet.ofMembers_eq inside).1, Meets.bind]
  refine inner.mono ?_ fun _ _ => id
  rintro more t ⟨emits, same⟩
  exact Meets.pure.mpr ⟨emits, ArraySet.erase_ofMembers inside, same⟩

theorem emitRefined_meets {refined : DocSet → Running ρ Bool}
    (small : source.documents + 63 < sizeLimit) (stands : s.Stands base source.documents)
    (vacant : Vacant source.documents held) (inside : ∀ i ∈ members, i < source.documents)
    (inner : ∀ t : Run ρ, t.Stands base source.documents → Delivers source processor
      (refined (.stored (ArraySet.ofMembers source.documents members))) t docs) :
    Meets (emitRefined refined held members) s
      (fun answer s' => Emits source processor s docs answer.1 s' ∧
        answer.2 = ArraySet.empty source.documents ∧
        s'.scratch.outstanding + count held = s.scratch.outstanding + 1)
      fun _ s' => ∃ front more, front <+: docs ∧ Emits source processor s front more s' := by
  unfold emitRefined
  cases held with
  | some set =>
    cases vacant set rfl
    refine (refined_meets inside (inner s stands)).mono ?_ fun _ _ => id
    rintro answer t ⟨emits, empty, same⟩
    exact ⟨emits, empty, congrArg (· + 1) same⟩
  | none =>
    refine Meets.bind.mpr ((Running.borrow_meets stands.lends small).mono ?_ ?_)
    · rintro _ t ⟨rfl, quiet, out⟩
      refine (refined_meets inside (inner t (quiet.stands stands))).mono ?_ ?_
      · rintro answer u ⟨emits, empty, same⟩
        exact ⟨emits.after_quiet quiet, empty, same.trans out⟩
      · rintro _ u ⟨front, more, inside, emits⟩
        exact ⟨front, more, inside, emits.after_quiet quiet⟩
    · intro _ t quiet
      exact ⟨[], true, List.nil_prefix, Emits.nothing quiet⟩

theorem emitGroups_delivers
    {emit : Option ArraySet → List Nat → Running ρ (Bool × Option ArraySet)}
    (tame : processor.Tame base) (listed : List Nat → List Nat)
    (stands : s.Stands base source.documents)
    (vacant : Vacant source.documents held)
    (each : ∀ members ∈ groups, ∀ held t, Vacant source.documents held →
      t.Stands base source.documents →
        DeliversWith source processor (emit held members) t held (listed members)) :
    DeliversWith source processor (emitGroups emit held groups) s held
      (groups.flatMap listed) := by
  induction groups generalizing s held with
  | nil => exact Meets.pure.mpr ⟨Emits.refl, vacant, rfl⟩
  | cons members rest ih =>
    refine Meets.bind.mpr ((each members List.mem_cons_self held s vacant stands).mono ?_ ?_)
    · rintro ⟨more, kept⟩ t ⟨first, vacant, counted⟩
      cases more with
      | false => exact Meets.pure.mpr ⟨first.append_ended _, vacant, counted⟩
      | true =>
        refine (ih (first.stands tame stands) vacant fun members later =>
          each members (List.mem_cons_of_mem _ later)).mono ?_ ?_
        · rintro answer u ⟨second, vacant, again⟩
          exact ⟨first.append second, vacant, by omega⟩
        · rintro _ u ⟨front, more, inside, second⟩
          exact ⟨listed members ++ front, more,
            (List.prefix_append_right_inj _).mpr inside, first.append second⟩
    · rintro _ t ⟨front, more, inside, first⟩
      exact ⟨front, more, inside.trans (List.prefix_append _ _), first⟩

end Groups

variable {docs : DocSet}

theorem ties_inside {index : SortIndex} (safe : index.Safe) (readable : docs.Readable)
    (direction : Direction) {members : List Nat} (tied : members ∈ ties index direction docs)
    {i : Nat} (member : i ∈ members) : docs.contains i = true := by
  obtain ⟨groups, grouped, inside⟩ := safe.groups direction docs readable
  obtain ⟨unranked, listed, others⟩ := safe.unrankedOf docs readable
  rw [ties, grouped, listed, List.mem_append, List.mem_singleton] at tied
  rcases tied with ranked | rfl
  · obtain ⟨group, here, rfl⟩ := List.mem_map.mp ranked
    exact inside group here i member
  · exact others i member

/-- A listing has only documents of the set. -/
theorem listing_inside (sound : source.Sound) (orders : List Order) (readable : docs.Readable)
    (size : docs.size = source.documents) {i : Nat} (listed : i ∈ listing source orders docs) :
    docs.contains i = true := by
  induction orders generalizing docs with
  | nil => exact (DocSet.mem_toList readable.legible).mp listed
  | cons order rest ih =>
    rw [listing] at listed
    cases known : source.sort? order.field with
    | none =>
      rw [known] at listed
      exact ih readable size listed
    | some index =>
      rw [known] at listed
      obtain ⟨members, tied, listed⟩ := List.mem_flatMap.mp listed
      have inside := fun i (member : i ∈ members) =>
        ties_inside (sound.sorts order.field index known) readable order.direction tied member
      split at listed
      · exact inside i listed
      · have within := fun i member => size ▸ DocSet.lt_of_contains (inside i member)
        obtain ⟨_, sizes, trimmed, same⟩ := ArraySet.ofMembers_eq within
        have here := ih (DocSet.readable_stored trimmed (sizes.symm ▸ sound.small)) sizes listed
        exact inside i ((same i).mp here)

/-- Giving back what is held after the last group. -/
theorem giveBack_delivers {held : Option ArraySet} {listed : List Nat} {more : Bool} {t : Run ρ}
    (emits : Emits source processor s listed more t)
    (out : t.scratch.outstanding = s.scratch.outstanding + count held) :
    Meets (do
      match held with
      | some set => Running.giveBack set
      | none => pure ()
      return more) t
      (fun more s' => Emits source processor s listed more s' ∧
        s'.scratch.outstanding = s.scratch.outstanding)
      fun _ s' => ∃ front more, front <+: listed ∧ Emits source processor s front more s' := by
  cases held with
  | none => exact Meets.pure.mpr ⟨emits, out⟩
  | some set =>
    have some : 0 < t.scratch.outstanding := out ▸ Nat.succ_pos _
    refine Meets.bind.mpr ((Running.giveBack_meets some).mono ?_ ?_)
    · rintro _ u ⟨quiet, counted⟩
      refine Meets.pure.mpr ⟨emits.before_quiet quiet, ?_⟩
      simp only [count, Option.elim] at out
      omega
    · intro _ u quiet
      exact ⟨listed, more, List.prefix_refl _, emits.before_quiet quiet⟩

/-- A tie is called for as it stands, or as the other fields order it. -/
theorem emitTie_delivers (sound : source.Sound) {rest : List Order} {members : List Nat}
    (within : ∀ i ∈ members, i < source.documents)
    (refines : ∀ {docs : DocSet} {s : Run ρ}, docs.Readable → docs.size = source.documents →
      s.Stands base source.documents →
        Delivers source processor (emitOrdered source processor rest docs) s
          (listing source rest docs))
    {held : Option ArraySet} (vacant : Vacant source.documents held)
    (stands : s.Stands base source.documents) :
    DeliversWith source processor (if rest.isEmpty || members.length < 2 then do
        return (← emitAll source processor members, held)
      else do
        let refined ← emitRefined (emitOrdered source processor rest) held members
        return (refined.1, some refined.2)) s held
      (if rest.isEmpty || members.length < 2 then members
        else listing source rest (.stored (ArraySet.ofMembers source.documents members))) := by
  split
  · refine Meets.bind.mpr ((emitAll_delivers fun document member =>
      sound.stored document (within document member)).mono ?_ fun _ _ => id)
    rintro more u ⟨emits, same⟩
    exact Meets.pure.mpr ⟨emits, vacant, congrArg (· + count held) same⟩
  · obtain ⟨_, sizes, trimmed, _⟩ := ArraySet.ofMembers_eq within
    have readable := DocSet.readable_stored trimmed (sizes.symm ▸ sound.small)
    refine Meets.bind.mpr ((emitRefined_meets sound.small stands vacant within fun u stands =>
      refines readable sizes stands).mono ?_ fun _ _ => id)
    rintro ⟨more, set⟩ u ⟨emits, rfl, counted⟩
    exact Meets.pure.mpr ⟨emits, fun set held => (Option.some.inj held).symm, counted⟩

/-- Ordered emission goes through the listing. -/
theorem emitOrdered_delivers (sound : source.Sound) (tame : processor.Tame base)
    (orders : List Order) (readable : docs.Readable) (size : docs.size = source.documents)
    (stands : s.Stands base source.documents) :
    Delivers source processor (emitOrdered source processor orders docs) s
      (listing source orders docs) := by
  induction orders generalizing docs s with
  | nil =>
    refine emitAll_delivers fun document listed => sound.stored document ?_
    exact size ▸ DocSet.lt_of_contains ((DocSet.mem_toList readable.legible).mp listed)
  | cons order rest ih =>
    rw [emitOrdered, listing]
    cases known : source.sort? order.field with
    | none => exact ih readable size stands
    | some index =>
      have safe := sound.sorts order.field index known
      have inside : ∀ members ∈ ties index order.direction docs, ∀ i ∈ members,
          i < source.documents := fun members tied i member =>
        size ▸ DocSet.lt_of_contains (ties_inside safe readable order.direction tied member)
      obtain ⟨groups, grouped, _⟩ := safe.groups order.direction docs readable
      obtain ⟨unranked, others, _⟩ := safe.unrankedOf docs readable
      have tied : ties index order.direction docs = groups.map (·.2) ++ [unranked] := by
        rw [ties, grouped, others]
        rfl
      unfold Delivers
      dsimp only
      rw [Meets.bind, Meets.lift grouped, Meets.bind, Meets.lift others, Meets.bind]
      rw [tied] at inside ⊢
      refine (emitGroups_delivers tame _ stands (vacant_none _)
        fun members listed held t vacant stands =>
          emitTie_delivers sound (inside members listed) ih vacant stands).mono ?_ fun _ _ => id
      rintro ⟨more, held⟩ t ⟨emits, _, counted⟩
      exact giveBack_delivers emits counted

theorem emit_delivers (sound : source.Sound) (tame : processor.Tame base) (orders : List Order)
    {selection : Selection} (readable : selection.docs.Readable)
    (size : selection.docs.size = source.documents) (stands : s.Stands base source.documents) :
    Delivers source processor (emit source processor orders selection) s
      (listing source orders selection.docs) := by
  unfold emit Delivers
  rw [Meets.bind, Running.isDone_meets]
  split
  · exact Meets.pure.mpr ⟨Emits.full ‹_› (Run.Quiet.refl s), rfl⟩
  · split
    · rename_i empty
      have none : listing source orders selection.docs = [] :=
        List.eq_nil_iff_forall_not_mem.mpr fun i listed => by
          have member := (DocSet.mem_toList readable.legible).mpr
            (listing_inside sound orders readable size listed)
          rw [(DocSet.isEmpty_iff readable.legible).mp empty] at member
          exact absurd member List.not_mem_nil
      rw [none]
      exact Meets.pure.mpr ⟨Emits.refl, rfl⟩
    · exact emitOrdered_delivers sound tame orders readable size stands

end Emission

end DocStore
