import DocStore.Direction
import DocStore.Query.Condition

/-!
Queries: conditions that all have to hold, fields to order by, and a page of the result.
Documents alike in every order field come in the order of their numbers, and documents without
a value for a field come after those with one.
-/

namespace DocStore

/-- A field to order by. -/
structure Order where
  field : String
  direction : Direction
deriving DecidableEq, Repr

/-- A query. -/
structure Query where
  conditions : List Condition
  orders : List Order
  /-- How many documents are left out from the front. -/
  skip : Nat
  /-- How many documents are returned after that, if there is a limit. -/
  limit : Option Nat

namespace Query

/-- Every document, in the order of their numbers. -/
def everything : Query := ⟨[], [], 0, none⟩

/-- Whether a query leaves anything out by a condition. -/
def hasFilter (q : Query) : Bool := !q.conditions.isEmpty

/-- Whether a query asks for every document, in the order of their numbers. -/
def isEverything (q : Query) : Bool :=
  q.conditions.isEmpty && q.orders.isEmpty && q.skip == 0 && q.limit.isNone

def problem? (q : Query) : Option QueryError :=
  Condition.firstProblem? q.conditions <|>
    if q.orders.any (·.field.isEmpty) then some .emptyOrderField else none

def validate (q : Query) : Except QueryError Query :=
  match q.problem? with
  | some error => .error error
  | none => .ok q

end Query

end DocStore
