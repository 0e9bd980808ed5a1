import DocStore.Index.Filter
import DocStore.Proofs.Dictionary.Holding
import DocStore.Proofs.Postings.Listing

/-! Look-ups of a filter index. What a test adds is fixed by the ranks that the dictionary finds;
over an ascending dictionary these are the ranks of the values that pass. -/
namespace DocStore

/-- A look-up adds the documents that pass to whatever set it is given. -/
def Adds (documents : Nat) (truthful : Prop) (look : ArraySet → Except Fault (Bool × ArraySet))
    (passes : Nat → Prop) : Prop :=
  ∀ dest, dest.Over documents → ∃ answer, look dest = .ok answer ∧ Added truthful passes dest answer

variable {documents : Nat} {truthful : Prop} {passes others : Nat → Prop}
  {look : ArraySet → Except Fault (Bool × ArraySet)}

theorem Adds.congr (adds : Adds documents truthful look passes)
    (same : ∀ i, passes i ↔ others i) : Adds documents truthful look others := fun dest sized => by
  obtain ⟨answer, united, added⟩ := adds dest sized
  exact ⟨answer, united, added.congr same⟩

theorem adds_nothing (none : ∀ i, ¬ passes i) :
    Adds documents truthful (fun dest => .ok (false, dest)) passes := fun _ sized =>
  ⟨_, rfl, Added.nothing sized.trimmed none⟩

namespace FilterIndex

def Carries (values : List Bytes) (bucket : Nat → List Nat) (test : ValueTest) (i : Nat) : Prop :=
  ∃ (rank : Nat) (inside : rank < values.length), test.holds values[rank] = true ∧ i ∈ bucket rank

structure Answers (index : FilterIndex) (documents : Nat) (truthful : Prop)
    (passes : ValueTest → Nat → Prop) : Prop where
  below : ∀ test i, passes test i → i < documents
  unite : ∀ test, Adds documents truthful (index.unite · test) (passes test)

variable {index : FilterIndex} {bucket : Nat → List Nat} {values : List Bytes}

section Ranges

variable (lists : index.postings.Lists documents truthful bucket)

include lists

theorem uniteEqual_adds {value : Bytes} {rank : Option Nat}
    (found : index.dictionary.rank? value = .ok rank) :
    Adds documents truthful (index.uniteEqual · value) fun i => ∃ key ∈ rank, i ∈ bucket key := by
  intro dest sized
  simp only [uniteEqual, found, ok_bind]
  cases rank with
  | none => exact adds_nothing (by simp) dest sized
  | some rank =>
    obtain ⟨answer, united, added⟩ := lists.uniteBetween dest rank rank sized
    refine ⟨answer, united, added.congr fun i => ?_⟩
    constructor
    · rintro ⟨key, low, high, member⟩
      exact ⟨rank, rfl, Nat.le_antisymm low high ▸ member⟩
    · rintro ⟨_, ⟨⟩, member⟩
      exact ⟨rank, Nat.le_refl _, Nat.le_refl _, member⟩

theorem uniteOneOf_adds {wanted : List Bytes} {rank : Bytes → Option Nat}
    (found : ∀ value, index.dictionary.rank? value = .ok (rank value)) :
    Adds documents truthful (index.uniteOneOf · wanted) fun i =>
      ∃ value ∈ wanted, ∃ key ∈ rank value, i ∈ bucket key := by
  -- the flag and the set after some of the values are an answer for those values
  suffices steps : ∀ seen dest before, Added truthful seen dest before → before.2.Over documents →
      ∃ answer, wanted.foldlM (fun united value => do
          let next ← index.uniteEqual united.2 value
          return (united.1 || next.1, next.2)) before = .ok answer ∧
        Added truthful (fun i => seen i ∨ ∃ value ∈ wanted, ∃ key ∈ rank value, i ∈ bucket key)
          dest answer by
    intro dest sized
    obtain ⟨answer, united, added⟩ :=
      steps (fun _ => False) dest (false, dest) (Added.nothing sized.trimmed fun _ => id) sized
    exact ⟨answer, united, added.congr fun i => by simp⟩
  induction wanted with
  | nil => exact fun seen dest before added _ => ⟨before, rfl, added.congr fun i => by simp⟩
  | cons value rest ih =>
    intro seen dest before added sized
    obtain ⟨answer, united, more⟩ := uniteEqual_adds lists (found value) before.2 sized
    obtain ⟨last, later, all⟩ := ih _ dest _ (added.andThen more) (more.sized sized)
    refine ⟨last, ?_, all.congr fun i => by simp [or_assoc]⟩
    rw [List.foldlM_cons, ← later]
    simp only [united, ok_bind, pure_eq_ok]

theorem uniteLess_adds {value : Bytes} {inclusive : Bool} {last : Option Nat}
    (found : index.dictionary.highestBelow value inclusive 0 = .ok last) :
    Adds documents truthful (index.uniteLess · value inclusive) fun i =>
      ∃ top ∈ last, ∃ key ≤ top, i ∈ bucket key := by
  intro dest sized
  simp only [uniteLess, found, ok_bind]
  cases last with
  | none => exact adds_nothing (by simp) dest sized
  | some last =>
    obtain ⟨answer, united, added⟩ := lists.uniteBetween dest 0 last sized
    exact ⟨answer, united, added.congr fun i => by simp⟩

theorem uniteGreater_adds {value : Bytes} {inclusive : Bool} {first : Option Nat}
    (found : index.dictionary.lowestAbove value inclusive noLimit = .ok first) :
    Adds documents truthful (index.uniteGreater · value inclusive) fun i =>
      ∃ start ∈ first, ∃ key, start ≤ key ∧ i ∈ bucket key := by
  intro dest sized
  have past : ∀ key i, i ∈ bucket key → key < index.postings.keys := fun key i member =>
    Nat.lt_of_not_le fun beyond => by simp [lists.keys key beyond] at member
  simp only [uniteGreater, found, ok_bind]
  cases first with
  | none => exact adds_nothing (by simp) dest sized
  | some first =>
    simp only [Postings.uniteFrom]
    split
    · rename_i empty
      refine adds_nothing ?_ dest sized
      rintro i ⟨_, _, key, _, member⟩
      have := past key i member
      omega
    · rename_i last keys
      obtain ⟨answer, united, added⟩ := lists.uniteBetween dest first last sized
      refine ⟨answer, united, added.congr fun i => ?_⟩
      constructor
      · rintro ⟨key, low, _, member⟩
        exact ⟨first, rfl, key, low, member⟩
      · rintro ⟨_, ⟨⟩, key, low, member⟩
        have := past key i member
        exact ⟨key, low, by omega, member⟩

theorem uniteBetween_adds {low high : Bytes} {lowInclusive highInclusive : Bool}
    {first : Option Nat} {last : Nat → Option Nat}
    (above : index.dictionary.lowestAbove low lowInclusive noLimit = .ok first)
    (below : ∀ first, index.dictionary.highestBelow high highInclusive first = .ok (last first)) :
    Adds documents truthful (index.uniteBetween · low lowInclusive high highInclusive) fun i =>
      ∃ start ∈ first, ∃ top ∈ last start, ∃ key, start ≤ key ∧ key ≤ top ∧ i ∈ bucket key := by
  intro dest sized
  simp only [uniteBetween, above, ok_bind]
  cases first with
  | none => exact adds_nothing (by simp) dest sized
  | some first =>
    simp only [below, ok_bind]
    cases known : last first with
    | none => exact adds_nothing (by simp [known]) dest sized
    | some top =>
      obtain ⟨answer, united, added⟩ := lists.uniteBetween dest first top sized
      exact ⟨answer, united, added.congr fun i => by simp [known]⟩

end Ranges

def answered (search : Except Fault (Option Nat)) : Option Nat := search.toOption.join

/-- A document is listed under a rank that the searches for a test lead to. -/
def Reaches (index : FilterIndex) (bucket : Nat → List Nat) : ValueTest → Nat → Prop
  | .equal value, i => ∃ key ∈ answered (index.dictionary.rank? value), i ∈ bucket key
  | .oneOf wanted, i =>
    ∃ value ∈ wanted, ∃ key ∈ answered (index.dictionary.rank? value), i ∈ bucket key
  | .less value inclusive, i =>
    ∃ top ∈ answered (index.dictionary.highestBelow value inclusive 0), ∃ key ≤ top, i ∈ bucket key
  | .greater value inclusive, i =>
    ∃ start ∈ answered (index.dictionary.lowestAbove value inclusive noLimit),
      ∃ key, start ≤ key ∧ i ∈ bucket key
  | .between low lowInclusive high highInclusive, i =>
    ∃ start ∈ answered (index.dictionary.lowestAbove low lowInclusive noLimit),
      ∃ top ∈ answered (index.dictionary.highestBelow high highInclusive start),
        ∃ key, start ≤ key ∧ key ≤ top ∧ i ∈ bucket key

theorem eq_ok_answered {search : Except Fault (Option Nat)} {rank : Option Nat}
    (found : search = .ok rank) : search = .ok (answered search) := by
  rw [found]
  rfl

theorem Reaches.listed {test : ValueTest} {i : Nat} (reached : index.Reaches bucket test i) :
    ∃ key, i ∈ bucket key := by
  cases test with
  | equal =>
    obtain ⟨key, _, member⟩ := reached
    exact ⟨key, member⟩
  | oneOf =>
    obtain ⟨_, _, key, _, member⟩ := reached
    exact ⟨key, member⟩
  | less =>
    obtain ⟨_, _, key, _, member⟩ := reached
    exact ⟨key, member⟩
  | greater =>
    obtain ⟨_, _, key, _, member⟩ := reached
    exact ⟨key, member⟩
  | between =>
    obtain ⟨_, _, _, _, key, _, _, member⟩ := reached
    exact ⟨key, member⟩

/-- No look-up over a safe dictionary meets a fault. -/
theorem answers_reaches (safe : index.dictionary.Safe)
    (lists : index.postings.Lists documents truthful bucket) :
    index.Answers documents truthful (index.Reaches bucket) := by
  have ranked := fun value =>
    let ⟨_, found, _⟩ := safe.rank? value
    eq_ok_answered found
  have above := fun value orEqual last =>
    let ⟨_, found, _⟩ := safe.lowestAbove value orEqual last
    eq_ok_answered found
  have below := fun value orEqual first =>
    let ⟨_, found, _⟩ := safe.highestBelow value orEqual first
    eq_ok_answered found
  constructor
  · intro test i reached
    obtain ⟨key, member⟩ := reached.listed
    exact lists.below key i member
  · intro test
    cases test with
    | equal value => exact uniteEqual_adds lists (ranked value)
    | oneOf wanted => exact uniteOneOf_adds lists ranked
    | less value inclusive => exact uniteLess_adds lists (below _ _ _)
    | greater value inclusive => exact uniteGreater_adds lists (above _ _ _)
    | between => exact uniteBetween_adds lists (above _ _ _) (below _ _)

/-- Over an ascending dictionary the rank of a value leads to where it is stored. -/
theorem mem_rank_iff (holds : index.dictionary.Holds values) (value : Bytes) (i : Nat) :
    (∃ key ∈ answered (index.dictionary.rank? value), i ∈ bucket key) ↔
      ∃ (rank : Nat) (inside : rank < values.length), values[rank] = value ∧ i ∈ bucket rank := by
  rw [holds.rank? value]
  constructor
  · rintro ⟨key, found, member⟩
    obtain ⟨inside, same, _⟩ := List.idxOf?_eq_some_iff.mp found
    exact ⟨key, inside, same, member⟩
  · rintro ⟨rank, inside, rfl, member⟩
    exact ⟨rank, idxOf?_getElem holds.ascending inside, member⟩

/-- Over an ascending dictionary the searches for a test lead to the values that pass. -/
theorem reaches_iff (holds : index.dictionary.Holds values) (room : values.length < sizeLimit)
    (past : ∀ key, values.length ≤ key → bucket key = []) (test : ValueTest) (i : Nat) :
    index.Reaches bucket test i ↔ Carries values bucket test i := by
  have listed : ∀ key, i ∈ bucket key → key < values.length := fun key member =>
    Nat.lt_of_not_le fun beyond => by simp [past key beyond] at member
  have limit : ∀ key < values.length, key ≤ noLimit := fun key inside => by
    unfold noLimit
    omega
  cases test with
  | equal value =>
    simpa only [Reaches, Carries, ValueTest.holds, decide_eq_true_eq] using mem_rank_iff holds value i
  | oneOf wanted =>
    simp only [Reaches, Carries, ValueTest.holds, mem_rank_iff holds, List.contains_eq_mem,
      decide_eq_true_eq]
    constructor
    · rintro ⟨value, wanted, rank, inside, rfl, member⟩
      exact ⟨rank, inside, wanted, member⟩
    · rintro ⟨rank, inside, wanted, member⟩
      exact ⟨_, wanted, rank, inside, rfl, member⟩
  | less value inclusive =>
    simp only [Reaches, Carries, ValueTest.holds, holds.highestBelow_eq]
    constructor
    · rintro ⟨top, found, key, upper, member⟩
      have inside := listed key member
      exact ⟨key, inside, (le_lastBelow holds.ascending inside (Nat.zero_le _)).mp
        ⟨top, found, upper⟩, member⟩
    · rintro ⟨rank, inside, passes, member⟩
      obtain ⟨top, found, upper⟩ :=
        (le_lastBelow holds.ascending inside (Nat.zero_le _)).mpr passes
      exact ⟨top, found, rank, upper, member⟩
  | greater value inclusive =>
    simp only [Reaches, Carries, ValueTest.holds, holds.lowestAbove_eq]
    constructor
    · rintro ⟨start, found, key, lower, member⟩
      have inside := listed key member
      exact ⟨key, inside, (firstAbove_le holds.ascending inside (limit _ inside)).mp
        ⟨start, found, lower⟩, member⟩
    · rintro ⟨rank, inside, passes, member⟩
      obtain ⟨start, found, lower⟩ :=
        (firstAbove_le holds.ascending inside (limit _ inside)).mpr passes
      exact ⟨start, found, rank, lower, member⟩
  | between low lowInclusive high highInclusive =>
    simp only [Reaches, Carries, ValueTest.holds, holds.lowestAbove_eq, holds.highestBelow_eq,
      Bool.and_eq_true]
    constructor
    · rintro ⟨start, first, top, last, key, lower, upper, member⟩
      have inside := listed key member
      have above := (firstAbove_le holds.ascending inside (limit _ inside)).mp
        ⟨start, first, lower⟩
      have below := (le_lastBelow holds.ascending inside lower).mp ⟨top, last, upper⟩
      exact ⟨key, inside, ⟨above, below⟩, member⟩
    · rintro ⟨rank, inside, ⟨above, below⟩, member⟩
      obtain ⟨start, first, lower⟩ :=
        (firstAbove_le holds.ascending inside (limit _ inside)).mpr above
      obtain ⟨top, last, upper⟩ := (le_lastBelow holds.ascending inside lower).mpr below
      exact ⟨start, first, top, last, rank, lower, upper, member⟩

structure Files (index : FilterIndex) (documents : Nat) (values : List Bytes)
    (bucket : Nat → List Nat) : Prop where
  dictionary : index.dictionary.Holds values
  room : values.length < sizeLimit
  postings : index.postings.Lists documents True bucket
  keys : index.postings.keys = values.length

/-- Look-ups over an ascending dictionary add the documents with a value that passes. -/
theorem Files.answers (files : index.Files documents values bucket) :
    index.Answers documents True (Carries values bucket) := by
  obtain ⟨holds, room, lists, keys⟩ := files
  have same := reaches_iff holds room fun key past => lists.keys key (keys ▸ past)
  obtain ⟨below, unite⟩ := answers_reaches holds.safe lists
  exact ⟨fun test i carried => below test i ((same test i).mpr carried),
    fun test => (unite test).congr (same test)⟩

end FilterIndex

end DocStore
