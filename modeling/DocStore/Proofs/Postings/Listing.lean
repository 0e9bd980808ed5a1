import DocStore.Postings.Basic
import DocStore.Proofs.Bits.Sets
import DocStore.Proofs.OffsetTables

/-! What postings are: a list of documents for each key. A vector may have bits that stand for
no document, and then the answer whether a lookup found any is not to be trusted; every other
answer is. -/
namespace DocStore

structure ArraySet.Over (s : ArraySet) (documents : Nat) : Prop where
  size : s.size = documents
  trimmed : s.Trimmed

/-- A set with room for the documents below a number of them. -/
structure ArraySet.Roomy (s : ArraySet) (documents : Nat) : Prop where
  room : documents ≤ s.size
  trimmed : s.Trimmed

theorem ArraySet.Over.roomy {s : ArraySet} {documents : Nat} (sized : s.Over documents) :
    s.Roomy documents :=
  ⟨Nat.le_of_eq sized.size.symm, sized.trimmed⟩

/-- A lookup adds the documents that pass; a set to which nothing was added is the same set. -/
structure Added (truthful : Prop) (passes : Nat → Prop) (dest : ArraySet)
    (answer : Bool × ArraySet) : Prop where
  size : answer.2.size = dest.size
  trimmed : answer.2.Trimmed
  members : ∀ i, i ∈ answer.2 ↔ i ∈ dest ∨ passes i
  kept : answer.1 = false → answer.2 = dest
  found : truthful → (answer.1 = true ↔ ∃ i, passes i)

namespace Added

variable {truthful : Prop} {passes others : Nat → Prop} {dest : ArraySet}
  {answer : Bool × ArraySet}

theorem nothing (trimmed : dest.Trimmed) (none : ∀ i, ¬ passes i) :
    Added truthful passes dest (false, dest) where
  size := rfl
  trimmed := trimmed
  members i := by simp [none i]
  kept _ := rfl
  found _ := by simp [none]

theorem congr (added : Added truthful passes dest answer) (same : ∀ i, passes i ↔ others i) :
    Added truthful others dest answer := by
  have equal : passes = others := funext fun i => propext (same i)
  exact equal ▸ added

theorem sized {documents : Nat} (added : Added truthful passes dest answer)
    (sized : dest.Over documents) : answer.2.Over documents :=
  ⟨added.size.trans sized.size, added.trimmed⟩

theorem roomy {documents : Nat} (added : Added truthful passes dest answer)
    (roomy : dest.Roomy documents) : answer.2.Roomy documents :=
  ⟨added.size.symm ▸ roomy.room, added.trimmed⟩

/-- What passes determines the answer. -/
theorem unique {other : Bool × ArraySet} (left : Added True passes dest answer)
    (right : Added True passes dest other) : answer = other := by
  have flags : answer.1 = other.1 := by
    rw [Bool.eq_iff_iff, left.found trivial, right.found trivial]
  have sets : answer.2 = other.2 := by
    refine ArraySet.eq_of_mem left.trimmed right.trimmed (left.size.trans right.size.symm) fun i => ?_
    rw [left.members, right.members]
  exact Prod.ext flags sets

/-- One lookup after another. -/
theorem andThen {next : Bool × ArraySet} (first : Added truthful passes dest answer)
    (second : Added truthful others answer.2 next) :
    Added truthful (fun i => passes i ∨ others i) dest (answer.1 || next.1, next.2) where
  size := second.size.trans first.size
  trimmed := second.trimmed
  members i := by rw [second.members, first.members, or_assoc]
  kept none := by
    obtain ⟨left, right⟩ := Bool.or_eq_false_iff.mp none
    exact (second.kept right).trans (first.kept left)
  found true := by rw [Bool.or_eq_true, first.found true, second.found true, exists_or]

end Added

/-- A lookup is as good as its part on keys that there are. -/
theorem Postings.unites_of_inside {p : Postings} {truthful : Prop} {bucket : Nat → List Nat}
    {dest : ArraySet} {first : Nat} (trimmed : dest.Trimmed)
    (past : ∀ key, p.keys ≤ key → bucket key = [])
    (inside : ∀ last, first ≤ last → last < p.keys →
      ∃ answer, p.uniteBetween dest first last = .ok answer ∧
        Added truthful (fun i => ∃ key, first ≤ key ∧ key ≤ last ∧ i ∈ bucket key) dest answer)
    (last : Nat) : ∃ answer, p.uniteBetween dest first last = .ok answer ∧
      Added truthful (fun i => ∃ key, first ≤ key ∧ key ≤ last ∧ i ∈ bucket key) dest answer := by
  have known : ∀ {key i}, i ∈ bucket key → key < p.keys := fun {key i} member => by
    refine Nat.lt_of_not_le fun beyond => ?_
    rw [past key beyond] at member
    exact List.not_mem_nil member
  by_cases none : p.keys = 0 ∨ last < first ∨ p.keys ≤ first
  · refine ⟨(false, dest), by rw [uniteBetween, if_pos none]; rfl, Added.nothing trimmed ?_⟩
    rintro i ⟨key, from_, upTo, member⟩
    have := known member
    omega
  · obtain ⟨answer, united, added⟩ := inside (min last (p.keys - 1)) (by omega) (by omega)
    have cut : p.uniteBetween dest first (min last (p.keys - 1)) = p.uniteBetween dest first last := by
      rw [uniteBetween, uniteBetween, if_neg (by omega), if_neg none, subSizes_of_le (by omega),
        ok_bind, ok_bind, Nat.min_assoc, Nat.min_self]
    refine ⟨answer, cut ▸ united, added.congr fun i => exists_congr fun key => ?_⟩
    refine and_congr_right fun _ => and_congr_left fun member => ?_
    have := known member
    omega

structure Postings.Lists (p : Postings) (documents : Nat) (truthful : Prop)
    (bucket : Nat → List Nat) : Prop where
  below : ∀ key, ∀ document ∈ bucket key, document < documents
  keys : ∀ key, p.keys ≤ key → bucket key = []
  occupied : ∀ key, p.occupiedKeys ≤ key → bucket key = []
  documentsOf : ∀ (key : Nat) (filter : DocSet), filter.Legible →
    p.documentsOf key filter = .ok ((bucket key).filter filter.contains)
  uniteBetween : ∀ (dest : ArraySet) (first last : Nat), dest.Over documents →
    ∃ answer, p.uniteBetween dest first last = .ok answer ∧
      Added truthful (fun i => ∃ key, first ≤ key ∧ key ≤ last ∧ i ∈ bucket key) dest answer

end DocStore
