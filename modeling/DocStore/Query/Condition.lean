import DocStore.Index.ValueTest
import DocStore.Query.Error

/-!
Conditions on documents: a test on the values of a field, and the connectives. A document
passes a test if one of its values of the field does.
-/

namespace DocStore

/-- A condition on a document. -/
inductive Condition where
  /-- Some value of the field passes the test. -/
  | test (field : String) (test : ValueTest)
  /-- All conditions hold. -/
  | all (conditions : List Condition)
  /-- Some condition holds. -/
  | any (conditions : List Condition)
  /-- The condition does not hold. -/
  | not (condition : Condition)

namespace Condition

def field? : Condition → Option String
  | test field _ => some field
  | all _ | any _ | not _ => none

def testProblem? (field : String) : ValueTest → Option QueryError
  | .oneOf [] => some (.condition field .emptyValueList)
  | .between low lowInclusive high highInclusive =>
    if high < low then some (.condition field .invertedRange)
    else if low = high ∧ ¬(lowInclusive ∧ highInclusive) then some (.condition field .emptyRange)
    else none
  | .equal _ | .oneOf (_ :: _) | .less _ _ | .greater _ _ => none

mutual

/-- The first error in a condition: no name, a test that nothing passes, a group of nothing. -/
def problem? : Condition → Option QueryError
  | test field valueTest =>
    if field.isEmpty then some .emptyFieldName else testProblem? field valueTest
  | all [] | any [] => some .emptyGroup
  | all (first :: rest) | any (first :: rest) => firstProblem? (first :: rest)
  | not condition => condition.problem?

def firstProblem? : List Condition → Option QueryError
  | [] => none
  | first :: rest => first.problem? <|> firstProblem? rest

end

end Condition

end DocStore
