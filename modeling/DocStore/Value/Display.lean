import DocStore.Decimal.Binary64
import DocStore.Decimal.Shortest
import DocStore.Text.Quoted
import DocStore.Value.Basic

/-!
Values as a reader sees them. Floating-point numbers are written with the fewest digits that
read back, never with an exponent, and integral ones without a point.
-/

namespace DocStore

namespace Value

/-- The text of a floating-point number. The sign of zero is kept, that of no number is not. -/
def floatText (bits : UInt64) : String :=
  let sign := if Binary64.isNegative bits then "-" else ""
  match Binary64.ofBits bits with
  | .nan => "NaN"
  | .infinite => sign ++ "inf"
  | .zero => sign ++ "0"
  | .finite mantissa exponent atPower =>
    sign ++ (Decimal.shortest mantissa exponent atPower).positional

def display : Value → String
  | bytes value => "[" ++ ", ".intercalate (value.map fun b => toString b.toNat) ++ "]"
  | text value => Text.quoted value
  | int32 value => toString value.toInt
  | int64 value => toString value.toInt
  | uint64 value => toString value.toNat
  | float bits => floatText bits
  | bool value => if value then "true" else "false"

end Value

end DocStore
