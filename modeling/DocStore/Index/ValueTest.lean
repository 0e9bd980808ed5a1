import DocStore.Bytes

/-!
Tests on the encoded value of a field. Encodings compare as byte strings in the order of the
values they stand for, so that a test needs no other order.
-/

namespace DocStore

/-- A test on an encoded value. -/
inductive ValueTest where
  | equal (value : Bytes)
  | oneOf (values : List Bytes)
  | less (value : Bytes) (inclusive : Bool)
  | greater (value : Bytes) (inclusive : Bool)
  | between (low : Bytes) (lowInclusive : Bool) (high : Bytes) (highInclusive : Bool)
deriving DecidableEq, Repr

namespace ValueTest

/-- Whether `a` is below `b`, or equal to it if `inclusive`. -/
def below (inclusive : Bool) (a b : Bytes) : Bool := if inclusive then a ≤ b else a < b

def holds : ValueTest → Bytes → Bool
  | equal value, x => x = value
  | oneOf values, x => values.contains x
  | less value inclusive, x => below inclusive x value
  | greater value inclusive, x => below inclusive value x
  | between low lowInclusive high highInclusive, x =>
    below lowInclusive low x && below highInclusive x high

end ValueTest

end DocStore
