import DocStore.Proofs.Index.Filter
import DocStore.Proofs.Query.Lending
import DocStore.Query.Selection

/-! Evaluating conditions. Whatever was in the set before, a condition adds the documents for
which it holds, and every set that it borrows is given back. -/
namespace DocStore

/-- Every test of a source adds existing documents. -/
structure Source.Answers (source : Source) (truthful : Prop)
    (passes : String → ValueTest → Nat → Prop) : Prop where
  small : source.documents + 63 < sizeLimit
  below : ∀ field test i, passes field test i → i < source.documents
  unite : ∀ field test,
    Adds source.documents truthful (source.unite field · test) (passes field test)

namespace Condition

variable (documents : Nat) (passes : String → ValueTest → Nat → Prop) (i : Nat)

mutual

/-- A condition holds for a document. A conjunction of nothing holds for none. -/
def Holds : Condition → Prop
  | test field valueTest => passes field valueTest i
  | all [] => False
  | all (first :: rest) => first.Holds ∧ AllHold rest
  | any conditions => SomeHolds conditions
  | not condition => i < documents ∧ ¬ condition.Holds

def AllHold : List Condition → Prop
  | [] => True
  | first :: rest => first.Holds ∧ AllHold rest

def SomeHolds : List Condition → Prop
  | [] => False
  | first :: rest => first.Holds ∨ SomeHolds rest

end

end Condition

/-- What a conjunction has left so far. Once nothing is left, the set is not narrowed further. -/
structure Narrowed (documents : Nat) (truthful : Prop) (passes : Nat → Prop)
    (state : Bool × ArraySet) : Prop where
  sized : state.2.Over documents
  members : state.1 = true → ∀ i, i ∈ state.2 ↔ passes i
  none : state.1 = false → ∀ i, ¬ passes i
  found : truthful → state.1 = true → ∃ i, passes i

theorem Narrowed.congr {documents : Nat} {truthful : Prop} {passes others : Nat → Prop}
    {state : Bool × ArraySet} (narrowed : Narrowed documents truthful passes state)
    (same : ∀ i, passes i ↔ others i) : Narrowed documents truthful others state := by
  have equal : passes = others := funext fun i => propext (same i)
  exact equal ▸ narrowed

section Sets

variable {documents : Nat} {truthful : Prop} {passes others : Nat → Prop} {dest kept : ArraySet}
  {alive found : Bool}

theorem ArraySet.over_empty (documents : Nat) : (ArraySet.empty documents).Over documents :=
  ⟨rfl, trimmed_empty documents⟩

theorem ArraySet.Over.readable {set : ArraySet} (sized : set.Over documents)
    (small : documents + 63 < sizeLimit) : (DocSet.stored set).Readable :=
  DocSet.readable_stored sized.trimmed (sized.size ▸ small)

theorem Added.narrowed {answer : Bool × ArraySet}
    (added : Added truthful passes (ArraySet.empty documents) answer) :
    Narrowed documents truthful passes answer where
  sized := added.sized (ArraySet.over_empty documents)
  members _ i := by simp [added.members, ArraySet.not_mem_empty]
  none nothing i passed := by
    have member := (added.members i).mpr (Or.inr passed)
    rw [added.kept nothing] at member
    exact ArraySet.not_mem_empty member
  found true some := (added.found true).mp some

theorem narrowed_complement (sized : kept.Over documents) (members : ∀ i, i ∈ kept ↔ passes i) :
    Narrowed documents truthful (fun i => i < documents ∧ ¬ passes i)
      (!kept.complement.isEmpty, kept.complement) := by
  have trimmed := ArraySet.trimmed_complement kept
  have same : ∀ i, i ∈ kept.complement ↔ i < documents ∧ ¬ passes i := fun i => by
    rw [ArraySet.mem_complement, sized.size, members]
  refine ⟨⟨sized.size, trimmed⟩, fun _ => same, fun empty i => ?_, fun _ some => ?_⟩
  · rw [← same]
    exact (ArraySet.isEmpty_iff trimmed).mp (by simpa using empty) i
  · simp only [← same]
    refine Classical.byContradiction fun none => ?_
    have empty := (ArraySet.isEmpty_iff trimmed).mpr fun i member => none ⟨i, member⟩
    simp [empty] at some

/-- Adding what a conjunction leaves. -/
theorem Narrowed.united (narrowed : Narrowed documents truthful passes (alive, kept))
    (sized : dest.Over documents) (small : documents + 63 < sizeLimit) :
    ∃ united, (if alive then dest.union (.stored kept) else .ok dest) = .ok united ∧
      Added truthful passes dest (alive, united) := by
  cases alive with
  | false => exact ⟨dest, rfl, Added.nothing sized.trimmed (narrowed.none rfl)⟩
  | true =>
    obtain ⟨united, added, size, trimmed, members⟩ :=
      ArraySet.union_eq (fun _ => (narrowed.sized.readable small).legible) (sized.size ▸ small)
    refine ⟨united, added, size, trimmed, fun i => ?_, (nomatch ·), fun true => ?_⟩
    · rw [members, ← narrowed.members rfl]
      refine or_congr_right (and_iff_right_of_imp fun member => ?_)
      exact sized.size ▸ narrowed.sized.size ▸ ArraySet.lt_of_mem member
    · exact ⟨narrowed.found true, fun _ => rfl⟩

/-- Keeping what another condition adds to an empty set. -/
theorem Narrowed.inter {answer : Bool × ArraySet}
    (narrowed : Narrowed documents truthful passes (true, kept))
    (next : Narrowed documents truthful others answer) (small : documents + 63 < sizeLimit) :
    ∃ state, (if answer.1 then kept.inter (.stored answer.2) else .ok (false, kept)) = .ok state ∧
      Narrowed documents truthful (fun i => passes i ∧ others i) state := by
  obtain ⟨found, matched⟩ := answer
  cases found with
  | false =>
    exact ⟨_, rfl, narrowed.sized, (nomatch ·), fun _ i both => next.none rfl i both.2,
      fun _ => (nomatch ·)⟩
  | true =>
    obtain ⟨some, both, kept, size, trimmed, members, found⟩ :=
      ArraySet.inter_eq narrowed.sized.trimmed (fun _ => (next.sized.readable small).legible)
        (narrowed.sized.size ▸ small)
    have same : ∀ i, i ∈ both ↔ passes i ∧ others i := fun i => by
      rw [members, narrowed.members rfl, ← next.members rfl]
      rfl
    refine ⟨(some, both), kept, ⟨size.trans narrowed.sized.size, trimmed⟩, fun _ => same,
      fun none i => ?_, fun _ some => ?_⟩
    · rw [← same]
      exact fun member => by simp [found.mpr ⟨i, member⟩] at none
    · simpa only [same] using found.mp some

end Sets

variable {ρ : Type} {source : Source} {truthful : Prop} {passes : String → ValueTest → Nat → Prop}
  {s : Run ρ} {dest : ArraySet}

def Settles {α : Type} (held : Nat) (x : Running ρ α) (s : Run ρ) (post : α → Prop) : Prop :=
  held ≤ s.scratch.outstanding → Meets x s
    (fun a s' => s.Quiet s' ∧ s'.scratch.outstanding + held = s.scratch.outstanding ∧ post a)
    fun _ s' => s.Quiet s'

namespace Settles

variable {α β : Type} {x : Running ρ α} {f : α → Running ρ β} {post : α → Prop} {post' : β → Prop}
  {held size : Nat}

theorem lift {read : Except Fault α} {a : α} (answers : read = .ok a) (holds : post a) :
    Settles 0 (liftM read) s post :=
  fun _ => (Meets.lift answers).mpr ⟨Run.Quiet.refl s, rfl, holds⟩

theorem pure {a : α} (holds : post a) : Settles 0 (Pure.pure a) s post :=
  fun _ => ⟨Run.Quiet.refl s, rfl, holds⟩

theorem bind (first : Settles 0 x s post)
    (next : ∀ a t, s.Quiet t → post a → Settles held (f a) t post') :
    Settles held (x >>= f) s post' := fun enough => by
  refine Meets.bind.mpr ((first (Nat.zero_le _)).mono ?_ fun _ _ => id)
  rintro a t ⟨quiet, count, found⟩
  rw [Nat.add_zero] at count
  refine (next a t quiet found (count ▸ enough)).mono ?_ fun _ _ => quiet.trans
  rintro b u ⟨later, returned, done⟩
  exact ⟨quiet.trans later, count ▸ returned, done⟩

theorem borrow {f : ArraySet → Running ρ β} (lends : s.Lends size)
    (small : size + 63 < sizeLimit)
    (next : ∀ t, s.Quiet t → Settles (held + 1) (f (ArraySet.empty size)) t post') :
    Settles held (Running.borrow >>= f) s post' := fun enough => by
  refine Meets.bind.mpr ((Running.borrow_meets lends small).mono ?_ fun _ _ => id)
  rintro _ t ⟨rfl, quiet, count⟩
  refine (next t quiet (by omega)).mono ?_ fun _ _ => quiet.trans
  rintro b u ⟨later, returned, done⟩
  exact ⟨quiet.trans later, by omega, done⟩

theorem giveBack {set : ArraySet} {f : Unit → Running ρ β}
    (next : ∀ t, s.Quiet t → Settles held (f ()) t post') :
    Settles (held + 1) (Running.giveBack set >>= f) s post' := fun enough => by
  refine Meets.bind.mpr ((Running.giveBack_meets (by omega)).mono ?_ fun _ _ => id)
  rintro _ t ⟨quiet, count⟩
  refine (next t quiet (by omega)).mono ?_ fun _ _ => quiet.trans
  rintro b u ⟨later, returned, done⟩
  exact ⟨quiet.trans later, by omega, done⟩

theorem mono {weaker : α → Prop} (settles : Settles held x s post)
    (weaken : ∀ a, post a → weaker a) : Settles held x s weaker := fun enough =>
  (settles enough).mono (fun a _ ⟨quiet, count, done⟩ => ⟨quiet, count, weaken a done⟩)
    fun _ _ => id

end Settles

namespace Condition

/-- The last step of a conjunction and of a negation. -/
theorem unite_back {alive : Bool} {kept : ArraySet} {passes : Nat → Prop}
    (narrowed : Narrowed source.documents truthful passes (alive, kept))
    (sized : dest.Over source.documents) (small : source.documents + 63 < sizeLimit) :
    Settles (ρ := ρ) 1 (do
      let dest ← if alive then dest.union (.stored kept) else pure dest
      Running.giveBack kept
      return (alive, dest)) s (Added truthful passes dest) := by
  obtain ⟨united, answer, added⟩ := narrowed.united sized small
  cases alive with
  | false =>
    cases answer
    exact Settles.bind (Settles.pure rfl) fun last t _ same =>
      Settles.giveBack fun u _ => Settles.pure (same ▸ added)
  | true =>
    exact Settles.bind (Settles.lift answer rfl) fun last t _ same =>
      Settles.giveBack fun u _ => Settles.pure (same ▸ added)

mutual

/-- A condition adds the documents for which it holds. -/
theorem unite_settles {s : Run ρ} {dest : ArraySet} (answers : source.Answers truthful passes)
    (condition : Condition) (lends : s.Lends source.documents)
    (sized : dest.Over source.documents) :
    Settles 0 (condition.unite source dest) s
      (Added truthful (condition.Holds source.documents passes ·) dest) := by
  cases condition with
  | test field valueTest =>
    obtain ⟨answer, united, added⟩ := answers.unite field valueTest dest sized
    exact Settles.lift united added
  | all conditions =>
    cases conditions with
    | nil => exact Settles.pure (Added.nothing sized.trimmed fun _ => id)
    | cons first rest =>
      rw [unite]
      refine Settles.borrow lends answers.small fun t quiet => ?_
      have lends := quiet.lends lends
      refine (unite_settles answers first lends (ArraySet.over_empty _)).bind
        fun found t quiet added => ?_
      have lends := quiet.lends lends
      refine (narrow_settles answers rest lends added.narrowed).bind fun state t _ narrowed => ?_
      exact unite_back narrowed sized answers.small
  | any conditions =>
    rw [unite]
    refine (uniteAny_settles answers conditions lends
      (@Added.nothing truthful (fun _ => False) dest sized.trimmed fun _ => id) sized).mono
        fun answer added => added.congr fun i => false_or _ ▸ Iff.rfl
  | not condition =>
    rw [unite]
    refine Settles.borrow lends answers.small fun t quiet => ?_
    have lends := quiet.lends lends
    refine (unite_settles answers condition lends (ArraySet.over_empty _)).bind
      fun found t quiet added => ?_
    exact unite_back (narrowed_complement (added.sized (ArraySet.over_empty _)) fun i => by
      simp [added.members, ArraySet.not_mem_empty]) sized answers.small

theorem narrow_settles {s : Run ρ} (answers : source.Answers truthful passes)
    (conditions : List Condition) (lends : s.Lends source.documents) {sofar : Nat → Prop}
    {state : Bool × ArraySet} (narrowed : Narrowed source.documents truthful sofar state) :
    Settles 0 (narrow source conditions state) s
      (Narrowed source.documents truthful
        fun i => sofar i ∧ AllHold source.documents passes i conditions) := by
  obtain ⟨alive, kept⟩ := state
  cases conditions with
  | nil =>
    rw [narrow]
    exact Settles.pure (narrowed.congr fun i => (and_true _).symm ▸ Iff.rfl)
  | cons condition rest =>
    rw [narrow]
    cases alive with
    | false =>
      exact Settles.pure ⟨narrowed.sized, (nomatch ·), fun _ i both => narrowed.none rfl i both.1,
        fun _ => (nomatch ·)⟩
    | true =>
      rw [if_pos rfl]
      refine Settles.borrow lends answers.small fun t quiet => ?_
      have lends := quiet.lends lends
      refine (unite_settles answers condition lends (ArraySet.over_empty _)).bind
        fun found t quiet added => ?_
      have lends := quiet.lends lends
      obtain ⟨found, matched⟩ := found
      obtain ⟨state, left, next⟩ := narrowed.inter added.narrowed answers.small
      have settled : ∀ u : Run ρ, t.Quiet u → Settles 1 (do
          Running.giveBack matched
          narrow source rest state) u (Narrowed source.documents truthful fun i =>
            sofar i ∧ AllHold source.documents passes i (condition :: rest)) := fun u quiet =>
        Settles.giveBack fun v returned =>
          (narrow_settles answers rest (returned.lends (quiet.lends lends)) next).mono
            fun last all => all.congr fun i => and_assoc
      cases found with
      | false =>
        cases left
        exact Settles.bind (Settles.pure rfl) fun last u quiet same => same ▸ settled u quiet
      | true =>
        exact Settles.bind (Settles.lift left rfl) fun last u quiet same => same ▸ settled u quiet

theorem uniteAny_settles {s : Run ρ} {dest : ArraySet} (answers : source.Answers truthful passes)
    (conditions : List Condition) (lends : s.Lends source.documents) {sofar : Nat → Prop}
    {state : Bool × ArraySet} (added : Added truthful sofar dest state)
    (sized : dest.Over source.documents) :
    Settles 0 (uniteAny source conditions state) s
      (Added truthful
        (fun i => sofar i ∨ SomeHolds source.documents passes i conditions) dest) := by
  obtain ⟨found, united⟩ := state
  cases conditions with
  | nil =>
    rw [uniteAny]
    exact Settles.pure (added.congr fun i => (or_false _).symm ▸ Iff.rfl)
  | cons condition rest =>
    rw [uniteAny]
    refine (unite_settles answers condition lends (added.sized sized)).bind
      fun answer t quiet more => ?_
    refine (uniteAny_settles answers rest (quiet.lends lends) (added.andThen more) sized).mono
      fun last all => all.congr fun i => or_assoc

end

end Condition

namespace Selection

def held : Selection → Nat
  | matched _ => 1
  | all _ | nothing _ => 0

/-- The documents of a selection are those that pass. -/
structure Selects (selection : Selection) (documents : Nat) (passes : Nat → Prop) : Prop where
  size : selection.docs.size = documents
  readable : selection.docs.Readable
  members : ∀ i, selection.docs.contains i = true ↔ i < documents ∧ passes i

/-- A selection of what a conjunction leaves: a set, unless nothing is left. -/
def Leaves (documents : Nat) (truthful : Prop) (passes : Nat → Prop) : Selection → Prop
  | all _ => False
  | matched set => Narrowed documents truthful passes (true, set)
  | nothing size => size = documents ∧ ∀ i, ¬ passes i

theorem Leaves.selects {selection : Selection} {documents : Nat} {passes : Nat → Prop}
    (leaves : selection.Leaves documents truthful passes) (small : documents + 63 < sizeLimit) :
    selection.Selects documents passes := by
  cases selection with
  | all _ => exact leaves.elim
  | matched set =>
    refine ⟨leaves.sized.size, leaves.sized.readable small, fun i => ?_⟩
    refine (leaves.members rfl i).trans (Iff.symm (and_iff_right_of_imp fun holds => ?_))
    exact leaves.sized.size ▸ ArraySet.lt_of_mem ((leaves.members rfl i).mpr holds)
  | nothing size =>
    obtain ⟨same, none⟩ := leaves
    refine ⟨same, ⟨?_, same.symm ▸ small⟩, fun i => ?_⟩
    · rintro _ ⟨⟩
    · exact ⟨fun absent => absurd absent Bool.false_ne_true, fun both => (none i both.2).elim⟩

/-- Some conditions leave the documents for which they all hold, in a set that stays out just if
there are any. -/
theorem ofConditions_cons_meets (answers : source.Answers truthful passes) (first : Condition)
    (rest : List Condition) (lends : s.Lends source.documents) :
    Meets (ofConditions source (first :: rest)) s
      (fun selection s' => s.Quiet s' ∧
        s'.scratch.outstanding = s.scratch.outstanding + selection.held ∧
        selection.Leaves source.documents truthful
          fun i => Condition.AllHold source.documents passes i (first :: rest))
      fun _ s' => s.Quiet s' := by
  rw [ofConditions]
  refine Meets.bind.mpr ((Running.borrow_meets lends answers.small).mono ?_ fun _ _ => id)
  rintro _ t ⟨rfl, lent, out⟩
  have lends := lent.lends lends
  refine Meets.bind.mpr ((Condition.unite_settles answers first lends (ArraySet.over_empty _)
    (Nat.zero_le _)).mono ?_ fun _ _ => lent.trans)
  rintro found u ⟨united, count, added⟩
  have quiet := lent.trans united
  refine Meets.bind.mpr ((Condition.narrow_settles answers rest (united.lends lends)
    added.narrowed (Nat.zero_le _)).mono ?_ fun _ _ => quiet.trans)
  rintro ⟨alive, kept⟩ v ⟨left, same, narrowed⟩
  have quiet := quiet.trans left
  cases alive with
  | true =>
    refine Meets.pure.mpr ⟨quiet, ?_, narrowed⟩
    simp only [held]
    omega
  | false =>
    refine Meets.bind.mpr ((Running.giveBack_meets (by omega)).mono ?_ fun _ _ => quiet.trans)
    rintro _ w ⟨returned, count⟩
    refine Meets.pure.mpr ⟨quiet.trans returned, ?_, rfl, narrowed.none rfl⟩
    simp only [held]
    omega

/-- Conditions select the documents for which they all hold. -/
theorem ofConditions_meets (answers : source.Answers truthful passes)
    (conditions : List Condition) (lends : s.Lends source.documents) :
    Meets (ofConditions source conditions) s
      (fun selection s' => s.Quiet s' ∧
        s'.scratch.outstanding = s.scratch.outstanding + selection.held ∧
        selection.Selects source.documents
          fun i => Condition.AllHold source.documents passes i conditions)
      fun _ s' => s.Quiet s' := by
  cases conditions with
  | nil =>
    refine Meets.pure.mpr ⟨Run.Quiet.refl s, rfl, rfl, ⟨?_, answers.small⟩, fun i => ?_⟩
    · rintro _ ⟨⟩
    · simp [docs, DocSet.contains, Condition.AllHold]
  | cons first rest =>
    refine (ofConditions_cons_meets answers first rest lends).mono ?_ fun _ _ => id
    rintro selection t ⟨quiet, count, leaves⟩
    exact ⟨quiet, count, leaves.selects answers.small⟩

theorem recycle_meets {selection : Selection} (out : selection.held ≤ s.scratch.outstanding) :
    Meets selection.recycle s (fun _ s' => s.Quiet s' ∧
      s'.scratch.outstanding + selection.held = s.scratch.outstanding) fun _ s' => s.Quiet s' := by
  cases selection with
  | matched set => exact Running.giveBack_meets out
  | all documents => exact Meets.pure.mpr ⟨Run.Quiet.refl s, rfl⟩
  | nothing documents => exact Meets.pure.mpr ⟨Run.Quiet.refl s, rfl⟩

end Selection

end DocStore
