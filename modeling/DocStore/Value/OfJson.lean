import DocStore.Json.Parser
import DocStore.Value.Basic

/-!
Field values from JSON. Scalars are values; null, arrays and objects are not.
-/

namespace DocStore

namespace Value

/-- The value of a machine number. -/
def ofNumber : Json.Number → Value
  | .signed value => .int64 value
  | .unsigned value => .uint64 value
  | .float bits => .float bits

def ofJson? : Json.Tree → Option Value
  | .bool value => some (.bool value)
  | .number numeral => numeral.number?.map ofNumber
  | .text units => (Json.text? units).map .text
  | .null | .array _ | .object _ => none

end Value

end DocStore
