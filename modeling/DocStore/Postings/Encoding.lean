/-!
The two stored forms of postings and their tags.
-/

namespace DocStore

/-- The stored form of postings: document numbers, or bit vectors. -/
inductive PostingsEncoding where
  | list
  | bits
deriving DecidableEq, Repr

namespace PostingsEncoding

def code : PostingsEncoding → Nat
  | list => 1
  | bits => 2

def ofCode? : Nat → Option PostingsEncoding
  | 1 => some list
  | 2 => some bits
  | _ => none

theorem ofCode?_code (encoding : PostingsEncoding) : ofCode? encoding.code = some encoding := by
  cases encoding <;> rfl

end PostingsEncoding

end DocStore
