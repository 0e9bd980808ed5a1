import DocStore.Proofs.Bits.Operations
import DocStore.Proofs.Query.Selecting

/-! Conditions as finite sets. When every test of a source adds a finite set of documents and says
whether it is empty, a condition adds the set that the connectives make of these, whatever was in
the destination and in the sets that it borrows. -/
namespace DocStore

namespace Condition

section Denotation

variable (documents : Nat) (matched : String → ValueTest → Finset Nat)

mutual

/-- The documents that a condition denotes, when a test denotes those that it matches. Groups of
nothing denote none. -/
def denotes : Condition → Finset Nat
  | test field valueTest => matched field valueTest
  | all [] => ∅
  | all (first :: rest) => first.denotes ∩ meet rest
  | any conditions => join conditions
  | not condition => Finset.range documents \ condition.denotes

def meet : List Condition → Finset Nat
  | [] => Finset.range documents
  | first :: rest => first.denotes ∩ meet rest

def join : List Condition → Finset Nat
  | [] => ∅
  | first :: rest => first.denotes ∪ join rest

end

end Denotation

variable {documents i : Nat} {matched : String → ValueTest → Finset Nat}

mutual

/-- A condition holds only for documents that there are. -/
theorem lt_of_holds {passes : String → ValueTest → Nat → Prop}
    (below : ∀ field test i, passes field test i → i < documents) (condition : Condition)
    (holds : condition.Holds documents passes i) : i < documents := by
  cases condition with
  | test field valueTest => exact below field valueTest i holds
  | all conditions =>
    cases conditions with
    | nil => exact holds.elim
    | cons first rest =>
      rw [Holds] at holds
      exact lt_of_holds below first holds.1
  | any conditions =>
    rw [Holds] at holds
    exact lt_of_someHolds below conditions holds
  | not condition =>
    rw [Holds] at holds
    exact holds.1

theorem lt_of_someHolds {passes : String → ValueTest → Nat → Prop}
    (below : ∀ field test i, passes field test i → i < documents) (conditions : List Condition)
    (holds : SomeHolds documents passes i conditions) : i < documents := by
  cases conditions with
  | nil => exact holds.elim
  | cons first rest =>
    rw [SomeHolds] at holds
    exact holds.elim (lt_of_holds below first) (lt_of_someHolds below rest)

end

mutual

theorem mem_denotes (below : ∀ field test, ∀ i ∈ matched field test, i < documents)
    (condition : Condition) : i ∈ condition.denotes documents matched ↔
      condition.Holds documents (fun field test i => i ∈ matched field test) i := by
  cases condition with
  | test field valueTest => rw [denotes, Holds]
  | all conditions =>
    cases conditions with
    | nil => simp [denotes, Holds]
    | cons first rest =>
      rw [denotes, Holds, Finset.mem_inter, mem_denotes below first, mem_meet below rest]
      exact and_congr_right fun holds => and_iff_right (lt_of_holds below first holds)
  | any conditions => rw [denotes, Holds, mem_join below conditions]
  | not condition =>
    rw [denotes, Holds, Finset.mem_sdiff, Finset.mem_range, mem_denotes below condition]

theorem mem_meet (below : ∀ field test, ∀ i ∈ matched field test, i < documents)
    (conditions : List Condition) : i ∈ meet documents matched conditions ↔ i < documents ∧
      AllHold documents (fun field test i => i ∈ matched field test) i conditions := by
  cases conditions with
  | nil => simp [meet, AllHold]
  | cons first rest =>
    rw [meet, AllHold, Finset.mem_inter, mem_denotes below first, mem_meet below rest]
    exact and_left_comm

theorem mem_join (below : ∀ field test, ∀ i ∈ matched field test, i < documents)
    (conditions : List Condition) : i ∈ join documents matched conditions ↔
      SomeHolds documents (fun field test i => i ∈ matched field test) i conditions := by
  cases conditions with
  | nil => simp [join, SomeHolds]
  | cons first rest =>
    rw [join, SomeHolds, Finset.mem_union, mem_denotes below first, mem_join below rest]

end

/-- A condition was evaluated into a set: what it denotes was added, and the flag tells whether
that is anything at all. -/
structure Evaluated (documents : Nat) (denoted : Finset Nat) (dest : ArraySet)
    (answer : Bool × ArraySet) : Prop where
  sized : answer.2.Over documents
  members : answer.2.members = dest.members ∪ denoted
  found : answer.1 = true ↔ denoted.Nonempty

theorem evaluated_of_added {passes : Nat → Prop} {denoted : Finset Nat} {dest : ArraySet}
    {answer : Bool × ArraySet} (added : Added True passes dest answer) (sized : dest.Over documents)
    (same : ∀ i, i ∈ denoted ↔ passes i) : Evaluated documents denoted dest answer where
  sized := added.sized sized
  members := by
    ext i
    rw [ArraySet.mem_members added.trimmed, added.members, Finset.mem_union,
      ArraySet.mem_members sized.trimmed, same]
  found := (added.found trivial).trans (exists_congr fun i => (same i).symm)

end Condition

namespace Selection

open Condition

/-- A selection by conditions that together denote `left`: every document without a condition, else
a set for what is left, if anything is. -/
def Renders (documents : Nat) (conditions : List Condition) (left : Finset Nat) :
    Selection → Prop
  | all size => conditions = [] ∧ size = documents
  | matched set => conditions ≠ [] ∧ left.Nonempty ∧ set.Over documents ∧ set.members = left
  | nothing size => conditions ≠ [] ∧ left = ∅ ∧ size = documents

theorem Leaves.renders {selection : Selection} {documents : Nat} {passes : Nat → Prop}
    {left : Finset Nat} {conditions : List Condition}
    (leaves : selection.Leaves documents True passes) (some : conditions ≠ [])
    (same : ∀ i, i ∈ left ↔ passes i) : selection.Renders documents conditions left := by
  cases selection with
  | all _ => exact leaves.elim
  | matched set =>
    obtain ⟨i, passed⟩ := leaves.found trivial rfl
    refine ⟨some, ⟨i, (same i).mpr passed⟩, leaves.sized, ?_⟩
    ext j
    rw [ArraySet.mem_members leaves.sized.trimmed, leaves.members rfl, same]
  | nothing size =>
    refine ⟨some, Finset.eq_empty_of_forall_notMem fun i member => ?_, leaves.1⟩
    exact leaves.2 i ((same i).mp member)

end Selection

variable {ρ : Type} {source : Source} {matched : String → ValueTest → Finset Nat} {s : Run ρ}

/-- Over tests that add finite sets, evaluating a condition adds the finite set that it denotes to
any set, and every scratch set is given back. Selecting by some conditions leaves every document
when there is no condition, else a scratch set of what they denote all, and none when that is
empty. Whatever borrowed sets held before makes no difference; all that can go wrong is that a
scratch set is refused. -/
theorem Source.Answers.evaluates
    (answers : source.Answers True fun field test i => i ∈ matched field test)
    (lends : s.Lends source.documents) :
    (∀ (condition : Condition) (dest : ArraySet), dest.Over source.documents →
      Meets (condition.unite source dest) s
        (fun answer s' => s'.scratch.outstanding = s.scratch.outstanding ∧
          Condition.Evaluated source.documents
            (condition.denotes source.documents matched) dest answer)
        fun _ _ => True) ∧
    ∀ conditions : List Condition, Meets (Selection.ofConditions source conditions) s
      (fun selection s' =>
        s'.scratch.outstanding = s.scratch.outstanding + selection.held ∧
          selection.Renders source.documents conditions
            (Condition.meet source.documents matched conditions))
      fun _ _ => True := by
  have below : ∀ field test, ∀ i ∈ matched field test, i < source.documents := answers.below
  constructor
  · intro condition dest sized
    have settles := Condition.unite_settles answers condition lends sized (Nat.zero_le _)
    refine settles.mono ?_ fun _ _ _ => trivial
    rintro answer t ⟨_, count, added⟩
    exact ⟨count, Condition.evaluated_of_added added sized fun i =>
      Condition.mem_denotes below condition⟩
  · intro conditions
    cases conditions with
    | nil => exact Meets.pure.mpr ⟨rfl, rfl, rfl⟩
    | cons first rest =>
      have meets := Selection.ofConditions_cons_meets answers first rest lends
      refine meets.mono ?_ fun _ _ _ => trivial
      rintro selection t ⟨_, count, leaves⟩
      refine ⟨count, leaves.renders (List.cons_ne_nil _ _) fun i => ?_⟩
      rw [Condition.mem_meet below]
      refine and_iff_right_of_imp fun all => ?_
      rw [Condition.AllHold] at all
      exact Condition.lt_of_holds answers.below first all.1

def listedIn (field : String) : List Nat :=
  if field = "a" then [0, 64] else if field = "b" then [64, 69] else []

def Source.twoFields : Source where
  documents := 70
  unite field dest _ := do
    let united ← (listedIn field).foldlM ArraySet.insert dest
    return (!(listedIn field).isEmpty, united)
  sort? _ := none
  payload? _ := return none

theorem lt_of_listedIn {field : String} {i : Nat} (member : i ∈ listedIn field) : i < 70 := by
  grind [listedIn]

theorem answers_twoFields :
    Source.twoFields.Answers True fun field _ i => i ∈ (listedIn field).toFinset where
  small := by decide
  below _ _ _ member := lt_of_listedIn (List.mem_toFinset.mp member)
  unite field test dest sized := by
    obtain ⟨united, filled, size, trims, members⟩ := @ArraySet.foldlM_insert dest (listedIn field)
      fun i member => sized.size.symm ▸ lt_of_listedIn member
    refine ⟨(!(listedIn field).isEmpty, united), by simp only [Source.twoFields, filled]; rfl, size,
      trims sized.trimmed, fun i => ?_, fun none => ?_, fun _ => ?_⟩
    · rw [members, List.mem_toFinset, or_comm]
    · have nothing : listedIn field = [] := by simpa using none
      rw [nothing] at filled
      exact (Except.ok.inj filled).symm
    · simp [List.eq_nil_iff_forall_not_mem]

def Run.littered : Run Unit where
  scratch :=
    { pool := 0, context := "c", limit := 4, outstanding := 0, borrowed := 0, released := false }
  engine := Engine.start.modifyArena fun arena =>
    (arena.addPool ⟨70, 4, 0, [(ArraySet.empty 70).fill]⟩).modifyContext "c" fun _ =>
      ⟨true, [(ArraySet.empty 70).fill]⟩
  pager := .start 0 none
  own := ()

def Condition.nested : Condition :=
  .all [.not (.any [.test "a" (.equal []), .test "z" (.equal [])]), .test "b" (.equal [])]

theorem exists_of_isSome {ε σ α : Type} {answer : Except ε α × σ}
    (ended : answer.1.toOption.isSome = true) : ∃ a s, answer = (.ok a, s) := by
  obtain ⟨_ | a, s⟩ := answer
  · cases ended
  · exact ⟨a, s, rfl⟩

theorem Source.Answers.evaluates_littered : ∃ dest united t set u,
    ArraySet.ofList 70 [5] = .ok dest ∧
      (ExceptT.run (Condition.nested.unite Source.twoFields dest)).run Run.littered =
        (.ok (true, united), t) ∧
      united.members = {5, 69} ∧ t.scratch.outstanding = 0 ∧
      (ExceptT.run (Selection.ofConditions Source.twoFields [.nested])).run Run.littered =
        (.ok (.matched set), u) ∧ set.members = {69} ∧ u.scratch.outstanding = 1 := by
  have lends : Run.littered.Lends 70 := ⟨_, rfl, rfl, by decide +kernel⟩
  obtain ⟨unites, selects⟩ := answers_twoFields.evaluates lends
  have denoted : Condition.nested.denotes 70 (fun field _ => (listedIn field).toFinset) = {69} := by
    decide +kernel
  obtain ⟨dest, made, sized, before, ended⟩ : ∃ dest, ArraySet.ofList 70 [5] = .ok dest ∧
      dest.Over 70 ∧ dest.members = {5} ∧
      ((ExceptT.run (Condition.nested.unite Source.twoFields dest)).run
        Run.littered).1.toOption.isSome = true := by
    have made : ArraySet.ofList 70 [5] = .ok _ := rfl
    have trimmed := (ArraySet.ofList_eq_ok made).1.trimmed
    exact ⟨_, made, ⟨rfl, trimmed⟩, by decide +kernel, by decide +kernel⟩
  obtain ⟨⟨found, united⟩, t, ran⟩ := exists_of_isSome ended
  obtain ⟨outstanding, evaluated⟩ := (unites .nested dest sized).ok_of_run ran
  have some : found = true := evaluated.found.mpr (denoted ▸ Finset.singleton_nonempty _)
  obtain ⟨selection, u, selected⟩ := @exists_of_isSome _ _ _
    ((ExceptT.run (Selection.ofConditions Source.twoFields [.nested])).run Run.littered)
    (by decide +kernel)
  obtain ⟨held, renders⟩ := (selects [.nested]).ok_of_run selected
  have left : Condition.meet 70 (fun field _ => (listedIn field).toFinset) [.nested] = {69} := by
    decide +kernel
  cases selection with
  | all _ => cases renders.1
  | nothing _ => exact absurd (left.symm.trans renders.2.1) (Finset.singleton_ne_empty _)
  | matched set =>
    refine ⟨dest, united, t, set, u, made, some ▸ ran, ?_, outstanding, selected, ?_, held⟩
    · rw [evaluated.members, before]
      exact congrArg _ denoted
    · exact renders.2.2.2.trans left

end DocStore
