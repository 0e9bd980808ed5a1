import DocStore.Bits.ArraySet
import DocStore.Index.Sort
import DocStore.Index.ValueTest

/-!
What a query reads from a database. A field without an index has no document that passes a
test, and no order.
-/

namespace DocStore

/-- The documents that a query runs over. -/
structure Source where
  /-- The number of documents. -/
  documents : Nat
  /-- Adds the documents whose value of a field passes a test, and answers whether there are
  any. -/
  unite : String → ArraySet → ValueTest → Except Fault (Bool × ArraySet)
  /-- The sort index of a field. -/
  sort? : String → Option SortIndex
  /-- The payload of a document. -/
  payload? : Nat → Except Fault (Option View)

end DocStore
