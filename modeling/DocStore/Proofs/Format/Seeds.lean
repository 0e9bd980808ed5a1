import DocStore.Proofs.Bits.Alike
import DocStore.Proofs.Format.Sorting

/-! Sets without storage in the place of stored ones. What combines a set with another, and what
filters by it the postings and the ranks that some bytes were decoded to, has one result for all
sets of one size with the same members. -/
namespace DocStore

namespace DocSet

variable {t u : DocSet} {s : ArraySet}

/-- Whatever takes one of two sets has a result, and the same with the other. -/
structure Interchangeable (t u : DocSet) : Prop where
  run : ∀ {s : ArraySet}, s.Reachable → ∀ op ∈ [ArraySet.Op.inter, .union, .sdiff, .assign],
    ∃ answer after, (op t).run s = (.ok answer, after) ∧ (op u).run s = (.ok answer, after)
  documentsOf : ∀ {documents p v w}, (Postings.decode documents).runOn v = (.ok p, w) →
    ∀ key, ∃ listed, p.documentsOf key t = .ok listed ∧ p.documentsOf key u = .ok listed
  groups : ∀ {documents p v w}, (Postings.decode documents).runOn v = (.ok p, w) →
    ∀ direction, ∃ groups,
      p.groups direction t = .ok groups ∧ p.groups direction u = .ok groups
  ranked : ∀ {documents p v w name dictionary index v' w'},
    (Postings.decode documents).runOn v = (.ok p, w) →
    (SortIndex.decode name dictionary p).runOn v' = (.ok index, w') →
    ∀ direction, ∃ groups,
      index.groups direction t = .ok groups ∧ index.groups direction u = .ok groups
  unranked : ∀ {name dictionary p index v w},
    (SortIndex.decode name dictionary p).runOn v = (.ok index, w) →
    ∃ listed, index.unrankedOf t = .ok listed ∧ index.unrankedOf u = .ok listed

section

variable (alike : t.Alike u)

include alike

theorem Alike.groups {p : Postings} {documents : Nat} {truthful : Prop} {bucket : Nat → List Nat}
    (lists : p.Lists documents truthful bucket) (left : t.Legible) (right : u.Legible)
    (direction : Direction) : ∃ groups,
      p.groups direction t = .ok groups ∧ p.groups direction u = .ok groups := by
  refine ⟨_, Postings.groups_eq lists left direction, ?_⟩
  rw [Postings.groups_eq lists right direction, funext alike.contains]

theorem Alike.gather {index : SortIndex} {documents : Nat} {rank : Nat → Option Nat}
    (ranks : index.Ranks documents rank) : ∃ groups,
      index.gather t = .ok groups ∧ index.gather u = .ok groups := by
  refine ⟨_, ranks.gather_eq, ?_⟩
  rw [ranks.gather_eq, SortIndex.walk, SortIndex.walk, alike.toList]

/-- How many members a set has and which they are is all that is asked for. -/
theorem Alike.interchangeable (left : t.Legible) (right : u.Legible) : t.Interchangeable u := by
  constructor
  case run =>
    intro s reachable
    exact alike.run reachable.sound.small
  case documentsOf =>
    intro documents p v w decoded key
    obtain ⟨bucket, lists⟩ := Postings.lists_of_decode decoded
    refine ⟨_, lists.documentsOf key t left, ?_⟩
    rw [lists.documentsOf key u right, funext alike.contains]
  case groups =>
    intro documents p v w decoded direction
    obtain ⟨bucket, lists⟩ := Postings.lists_of_decode decoded
    exact alike.groups lists left right direction
  case ranked =>
    intro documents p v w name dictionary index v' w' decoded sorted direction
    obtain ⟨bucket, lists⟩ := Postings.lists_of_decode decoded
    obtain ⟨_, rfl, rank, ranks⟩ := SortIndex.ranks_of_decode sorted
    have gathers : index.gathers u = index.gathers t := by
      rw [SortIndex.gathers, SortIndex.gathers, alike.cardinality]
    simp only [SortIndex.groups, gathers]
    split
    · obtain ⟨groups, mine, theirs⟩ := alike.gather ranks
      exact ⟨direction.arrange groups, by rw [mine]; rfl, by rw [theirs]; rfl⟩
    · exact alike.groups lists left right direction
  case unranked =>
    intro name dictionary p index v w sorted
    obtain ⟨_, _, rank, ranks⟩ := SortIndex.ranks_of_decode sorted
    refine ⟨_, SortIndex.unrankedOf_eq ranks.ranked, ?_⟩
    rw [SortIndex.unrankedOf_eq ranks.ranked, alike.toList]

end

/-- The empty and the full set without storage answer as the stored sets that are made empty and
full, and stand for them wherever a set is taken. Only the word of the last index of 64 bits is one
that the full set cannot make up. -/
theorem seeds_interchangeable (seeds : t.Seeds s) : t.Alike (.stored s) ∧
    (∀ index, t.word index = (stored s).word index ↔
      index + 1 < sizeLimit ∨ t = .none s.size) ∧
    t.Interchangeable (.stored s) := by
  obtain ⟨left, right, _⟩ := seeds.readable
  exact ⟨seeds.alike, seeds.word_iff, seeds.alike.interchangeable left.legible right.legible⟩

theorem seeds_interchangeable_lastWord : ∃ s, ArraySet.full 70 = .ok s ∧
    (all 70).word 1 = .ok 63 ∧ (stored s).word 1 = .ok 63 ∧ (stored s).next? 69 = some 69 ∧
    (stored s).word 18446744073709551614 = .ok 0 := by
  obtain ⟨s, made⟩ : ∃ s, ArraySet.full 70 = .ok s := ⟨_, rfl⟩
  obtain ⟨alike, words, _⟩ := seeds_interchangeable (.all made)
  have last : (all 70).word 1 = .ok 63 := by decide +kernel
  refine ⟨s, made, last, ?_, ?_, ?_⟩
  · exact ((words 1).mpr (Or.inl (by decide))).symm.trans last
  · exact (alike.next 69).symm
  · exact ((words 18446744073709551614).mpr (Or.inl (by decide))).symm.trans (by decide +kernel)

/-- The full set of one number has no word of the last index, where that of the stored set is
zero. -/
theorem seedWord_differs_lastIndex : ∃ s, ArraySet.full 1 = .ok s ∧
    (stored s).word 18446744073709551615 = .ok 0 ∧
    (all 1).word 18446744073709551615 = .error .overflow :=
  ⟨_, rfl, by decide +kernel, by decide +kernel⟩

end DocSet

end DocStore
