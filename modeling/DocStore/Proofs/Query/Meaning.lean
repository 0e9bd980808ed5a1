import DocStore.Build.Document
import DocStore.Proofs.Query.Ordering
import DocStore.Proofs.Query.Selecting

/-! What a query means for a list of documents, without an index: which of them it matches, and
in which order. -/
namespace DocStore

def Document.passes (d : Document) (field : String) (test : ValueTest) : Bool :=
  d.fields.any fun entry =>
    entry.name = field && entry.indexing.isFilterable && test.holds entry.value

def Document.sortValue (d : Document) (field : String) : Option Bytes :=
  (d.fields.find? fun entry => entry.name = field && entry.indexing.isSortable).map (·.value)

namespace Condition

mutual

/-- A condition matches a document. The connectives are those of Boolean logic. -/
def matchesDocument (d : Document) : Condition → Bool
  | test field valueTest => d.passes field valueTest
  | all conditions => allMatch d conditions
  | any conditions => someMatch d conditions
  | not condition => !condition.matchesDocument d

def allMatch (d : Document) : List Condition → Bool
  | [] => true
  | first :: rest => first.matchesDocument d && allMatch d rest

def someMatch (d : Document) : List Condition → Bool
  | [] => false
  | first :: rest => first.matchesDocument d || someMatch d rest

end

theorem firstProblem?_eq_none {first : Condition} {rest : List Condition}
    (sound : firstProblem? (first :: rest) = none) :
    first.problem? = none ∧ firstProblem? rest = none := by
  rw [firstProblem?] at sound
  cases problem : first.problem? with
  | some error => simp [problem] at sound
  | none => exact ⟨rfl, by simpa [problem] using sound⟩

variable {documents i : Nat} {passes : String → ValueTest → Nat → Prop} {d : Document}

mutual

/-- Evaluating agrees with the meaning on conditions that are well-formed: a conjunction of
nothing, which would hold for no document, is refused before. -/
theorem holds_iff (inside : i < documents)
    (tests : ∀ field test, passes field test i ↔ d.passes field test = true)
    (condition : Condition) (sound : condition.problem? = none) :
    condition.Holds documents passes i ↔ condition.matchesDocument d = true := by
  cases condition with
  | test field valueTest => exact tests field valueTest
  | all conditions =>
    cases conditions with
    | nil => simp [problem?] at sound
    | cons first rest =>
      rw [problem?] at sound
      obtain ⟨here, later⟩ := firstProblem?_eq_none sound
      rw [Holds, matchesDocument, allMatch, Bool.and_eq_true]
      exact and_congr (holds_iff inside tests first here) (allHold_iff inside tests rest later)
  | any conditions =>
    have each : firstProblem? conditions = none := by
      cases conditions with
      | nil => rfl
      | cons first rest => simpa [problem?] using sound
    rw [Holds, matchesDocument]
    exact someHolds_iff inside tests conditions each
  | not condition =>
    rw [problem?] at sound
    rw [Holds, matchesDocument, Bool.not_eq_true', ← Bool.not_eq_true]
    exact (and_iff_right inside).trans
      (not_congr (holds_iff inside tests condition sound))

theorem allHold_iff (inside : i < documents)
    (tests : ∀ field test, passes field test i ↔ d.passes field test = true)
    (conditions : List Condition) (sound : firstProblem? conditions = none) :
    AllHold documents passes i conditions ↔ allMatch d conditions = true := by
  cases conditions with
  | nil => exact iff_of_true trivial rfl
  | cons first rest =>
    obtain ⟨here, later⟩ := firstProblem?_eq_none sound
    rw [AllHold, allMatch, Bool.and_eq_true]
    exact and_congr (holds_iff inside tests first here) (allHold_iff inside tests rest later)

theorem someHolds_iff (inside : i < documents)
    (tests : ∀ field test, passes field test i ↔ d.passes field test = true)
    (conditions : List Condition) (sound : firstProblem? conditions = none) :
    SomeHolds documents passes i conditions ↔ someMatch d conditions = true := by
  cases conditions with
  | nil => exact iff_of_false id Bool.false_ne_true
  | cons first rest =>
    obtain ⟨here, later⟩ := firstProblem?_eq_none sound
    rw [SomeHolds, someMatch, Bool.or_eq_true]
    exact or_congr (holds_iff inside tests first here) (someHolds_iff inside tests rest later)

end

end Condition

namespace Query

variable {q : Query}

theorem conditions_sound (valid : q.problem? = none) :
    Condition.firstProblem? q.conditions = none := by
  unfold problem? at valid
  cases problem : Condition.firstProblem? q.conditions with
  | none => rfl
  | some error => simp [problem] at valid

/-- The numbers of the documents that a query matches, ascending. -/
def matching (q : Query) (documents : List Document) : List Nat :=
  (List.range documents.length).filter fun i =>
    documents[i]?.any fun d => Condition.allMatch d q.conditions

/-- The numbers of the documents that a query matches, in the order that it asks for. -/
def ordered (q : Query) (documents : List Document) : List Nat :=
  (q.matching documents).mergeSort
    (Order.le (fun field i => documents[i]?.bind (·.sortValue field)) q.orders)

end Query

end DocStore
