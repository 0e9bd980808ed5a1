/-!
Associations: values by key, the key that was set last in front. Setting a key replaces its
value and leaves all others alone.
-/

namespace DocStore

/-- Values by key. -/
structure Assoc (κ α : Type) where
  entries : List (κ × α)

namespace Assoc

variable {κ α : Type} [DecidableEq κ]

instance : EmptyCollection (Assoc κ α) := ⟨⟨[]⟩⟩

def size (a : Assoc κ α) : Nat := a.entries.length

def get? (a : Assoc κ α) (key : κ) : Option α := a.entries.lookup key

def erase (a : Assoc κ α) (key : κ) : Assoc κ α := ⟨a.entries.filter (·.1 ≠ key)⟩

def put (a : Assoc κ α) (key : κ) (value : α) : Assoc κ α :=
  ⟨(key, value) :: (a.erase key).entries⟩

theorem get?_erase (a : Assoc κ α) (key other : κ) :
    (a.erase key).get? other = if other = key then none else a.get? other := by
  obtain ⟨entries⟩ := a
  simp only [get?, erase]
  induction entries with
  | nil => simp
  | cons entry rest ih =>
    obtain ⟨k, v⟩ := entry
    by_cases same : k = key
    · subst same
      by_cases hit : other = k
      · simpa [hit] using ih
      · have miss : (other == k) = false := by simpa using hit
        simpa [hit, List.lookup_cons, miss] using ih
    · by_cases hit : other = k
      · subst hit
        simp [same]
      · have miss : (other == k) = false := by simpa using hit
        simpa [same, List.lookup_cons, miss] using ih

theorem get?_put (a : Assoc κ α) (key other : κ) (value : α) :
    (a.put key value).get? other = if other = key then some value else a.get? other := by
  by_cases hit : other = key
  · simp [put, get?, hit]
  · have miss : (other == key) = false := by simpa using hit
    have := get?_erase a key other
    simp only [get?, hit, ↓reduceIte] at this
    simp [put, get?, List.lookup_cons, miss, hit, this]

end Assoc

end DocStore
