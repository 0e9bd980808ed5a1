/-!
The two directions in which documents and ranks are listed.
-/

namespace DocStore

/-- From the least value on, or from the greatest. -/
inductive Direction where
  | ascending
  | descending
deriving DecidableEq, Repr

/-- An ascending list, listed in a direction. -/
def Direction.arrange {α : Type} : Direction → List α → List α
  | ascending, items => items
  | descending, items => items.reverse

end DocStore
