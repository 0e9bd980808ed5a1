import DocStore.Bytes

/-!
Sets of field values in the order of their ranks. The rank of a value is the number of values
below it, so that inserting keeps the list strictly ascending.
-/

namespace DocStore

/-- Distinct byte strings in ascending order. -/
structure ValueSet where
  values : List Bytes
deriving DecidableEq

namespace ValueSet

instance : EmptyCollection ValueSet := ⟨⟨[]⟩⟩

/-- Inserts a byte string into an ascending list that may have it already. -/
def insertInto (value : Bytes) : List Bytes → List Bytes
  | [] => [value]
  | head :: rest =>
    if value < head then value :: head :: rest
    else if value = head then head :: rest
    else head :: insertInto value rest

/-- Adds a value; one that is there already changes nothing. -/
def insert (s : ValueSet) (value : Bytes) : ValueSet := ⟨insertInto value s.values⟩

/-- The set of the listed values. -/
def ofList (values : List Bytes) : ValueSet := values.foldl insert ∅

def size (s : ValueSet) : Nat := s.values.length

def isEmpty (s : ValueSet) : Bool := s.values.isEmpty

def contains (s : ValueSet) (value : Bytes) : Bool := s.values.contains value

def rank? (s : ValueSet) (value : Bytes) : Option Nat := s.values.idxOf? value

def get? (s : ValueSet) (rank : Nat) : Option Bytes := s.values[rank]?

/-- The length that all values have in common, of a set that has values. -/
def uniformLength? (s : ValueSet) : Option Nat :=
  match s.values with
  | [] => none
  | first :: rest => if rest.all (·.length = first.length) then some first.length else none

def totalLength (s : ValueSet) : Nat := s.values.flatten.length

@[simp] theorem values_empty : (∅ : ValueSet).values = [] := rfl

theorem mem_insertInto {value : Bytes} {x : Bytes} {values : List Bytes} :
    x ∈ insertInto value values ↔ x = value ∨ x ∈ values := by
  induction values with
  | nil => simp [insertInto]
  | cons head rest ih =>
    simp only [insertInto]
    split
    · simp
    · split
      · rename_i same
        simp [same]
      · simp only [List.mem_cons, ih]
        grind

theorem insertInto_ascending {values : List Bytes} (value : Bytes)
    (ascending : values.Pairwise (· < ·)) : (insertInto value values).Pairwise (· < ·) := by
  induction values with
  | nil => exact List.pairwise_singleton _ _
  | cons head rest ih =>
    obtain ⟨least, others⟩ := List.pairwise_cons.mp ascending
    rw [insertInto]
    split
    · rename_i lower
      apply List.Pairwise.cons _ ascending
      intro other member
      rcases List.mem_cons.mp member with rfl | later
      · exact lower
      · exact List.lt_trans lower (least other later)
    · split
      · exact ascending
      · rename_i above apart
        apply List.Pairwise.cons _ (ih others)
        intro other member
        rcases mem_insertInto.mp member with rfl | later
        · exact Classical.byContradiction fun upper => apart (List.le_antisymm upper above)
        · exact least other later

/-- The listed values in ascending order, each of them once. -/
theorem ofList_spec (added : List Bytes) : (ofList added).values.Pairwise (· < ·) ∧
    ∀ value, value ∈ (ofList added).values ↔ value ∈ added := by
  suffices steps : ∀ s : ValueSet, s.values.Pairwise (· < ·) →
      (added.foldl insert s).values.Pairwise (· < ·) ∧
        ∀ value, value ∈ (added.foldl insert s).values ↔ value ∈ s.values ∨ value ∈ added by
    obtain ⟨ascending, members⟩ := steps ∅ List.Pairwise.nil
    exact ⟨ascending, fun value => by rw [ofList, members]; simp⟩
  induction added with
  | nil => exact fun s ascending => ⟨ascending, fun value => by simp⟩
  | cons first rest ih =>
    intro s ascending
    obtain ⟨later, members⟩ := ih (s.insert first) (insertInto_ascending first ascending)
    refine ⟨later, fun value => ?_⟩
    rw [List.foldl_cons, members, insert, mem_insertInto, List.mem_cons, or_assoc, or_left_comm]

end ValueSet

end DocStore
