/-!
Pages of a result: some documents are left out, some are taken, and then the page is full. A
pager can go on over the results of several databases.
-/

namespace DocStore

/-- How much is still to be left out and taken. -/
structure Pager where
  toSkip : Nat
  /-- How many documents may still be taken, if there is a limit. -/
  remaining : Option Nat
  /-- How many documents were taken. -/
  emitted : Nat
deriving DecidableEq, Repr

/-- What happens to the next document. -/
inductive Admission where
  | skip
  | take
  | stop
deriving DecidableEq, Repr

namespace Pager

/-- The page after `skip` documents. -/
def start (skip : Nat) (limit : Option Nat) : Pager := ⟨skip, limit, 0⟩

def isDone (p : Pager) : Bool := p.remaining == some 0

/-- What happens to the next document, and the pager after it. -/
def offer : Pager → Admission × Pager
  | ⟨toSkip, some 0, emitted⟩ => (.stop, ⟨toSkip, some 0, emitted⟩)
  | ⟨left + 1, remaining, emitted⟩ => (.skip, ⟨left, remaining, emitted⟩)
  | ⟨0, some (left + 1), emitted⟩ => (.take, ⟨0, some left, emitted + 1⟩)
  | ⟨0, none, emitted⟩ => (.take, ⟨0, none, emitted + 1⟩)

end Pager

end DocStore
