/-!
The shortest decimal that reads back as a given binary number. The reals that round to
`mantissa * 2 ^ exponent` form an interval around it that reaches halfway to its neighbours,
with its ends if the mantissa is even. Of the decimals in the interval the one with the fewest
digits is chosen, of two such the nearer one, and of two as near the greater one.
-/

namespace DocStore

/-- The number `digits * 10 ^ exponent`. -/
structure Decimal where
  digits : Nat
  exponent : Int
deriving DecidableEq, Repr

namespace Decimal

/-- A positive number as a fraction, with the distance to its neighbour above. -/
structure Scaled where
  numerator : Nat
  denominator : Nat
  /-- The distance to the neighbour above, over the same denominator. -/
  unit : Nat
  /-- Whether the neighbour below is half as far away. -/
  nearBelow : Bool
  /-- Whether the ends of the interval round to the number. -/
  withEnds : Bool

/-- The number `mantissa * 2 ^ exponent` as a fraction. -/
def Scaled.ofBinary (mantissa : Nat) (exponent : Int) (nearBelow : Bool) : Scaled where
  numerator := mantissa * Nat.pow 2 exponent.toNat
  denominator := Nat.pow 2 (-exponent).toNat
  unit := Nat.pow 2 exponent.toNat
  nearBelow
  withEnds := mantissa % 2 == 0

def digitCount (n : Nat) : Nat := (Nat.toDigits 10 n).length

/-- The place in front of the leading digit: the number lies below ten to this power, and not
below a tenth of it. -/
def Scaled.magnitude (x : Scaled) : Int :=
  if x.denominator ≤ x.numerator then
    digitCount (x.numerator / x.denominator)
  else
    1 - (digitCount ((x.denominator - 1) / x.numerator) : Int)

/-- A decimal as a fraction. -/
def fraction (d : Decimal) : Nat × Nat :=
  (d.digits * Nat.pow 10 d.exponent.toNat, Nat.pow 10 (-d.exponent).toNat)

/-- Whether a decimal lies in the interval of a number. -/
def Scaled.readsBack (x : Scaled) (d : Decimal) : Bool :=
  let (top, bottom) := d.fraction
  let low := (4 * x.numerator - (if x.nearBelow then 1 else 2) * x.unit) * bottom
  let high := (4 * x.numerator + 2 * x.unit) * bottom
  let candidate := top * (4 * x.denominator)
  if x.withEnds then low ≤ candidate && candidate ≤ high else low < candidate && candidate < high

/-- The decimal below a number, or equal to it, whose last digit stands for `10 ^ exponent`. -/
def Scaled.floorAt (x : Scaled) (exponent : Int) : Decimal :=
  ⟨x.numerator * Nat.pow 10 (-exponent).toNat / (x.denominator * Nat.pow 10 exponent.toNat), exponent⟩

/-- Whether the decimal above is nearer to a number than the one below, or as near. -/
def Scaled.nearerAbove (x : Scaled) (below : Decimal) : Bool :=
  let scaled := x.numerator * Nat.pow 10 (-below.exponent).toNat
  let unit := x.denominator * Nat.pow 10 below.exponent.toNat
  unit ≤ 2 * (scaled - below.digits * unit)

/-- The chosen decimal with its last digit at `10 ^ exponent`, if one lies in the interval. -/
def Scaled.candidate? (x : Scaled) (exponent : Int) : Option Decimal :=
  let below := x.floorAt exponent
  let above : Decimal := ⟨below.digits + 1, exponent⟩
  match x.readsBack below, x.readsBack above with
  | true, true => some (if x.nearerAbove below then above else below)
  | true, false => some below
  | false, true => some above
  | false, false => none

/-- Moves up to `fuel` trailing zeros into the exponent. -/
def dropZeros : Nat → Decimal → Decimal
  | 0, d => d
  | fuel + 1, d =>
    if d.digits ≠ 0 ∧ d.digits % 10 = 0 then dropZeros fuel ⟨d.digits / 10, d.exponent + 1⟩ else d

/-- The shortest decimal of `mantissa * 2 ^ exponent`, which has to be positive. Seventeen
digits are always enough for 64-bit numbers; the decimal below the number is what is left if
they were not. -/
def shortest (mantissa : Nat) (exponent : Int) (nearBelow : Bool) : Decimal :=
  let x := Scaled.ofBinary mantissa exponent nearBelow
  let tries := (List.range 17).map fun n => x.magnitude - (n + 1 : Nat)
  dropZeros 17 ((tries.findSome? x.candidate?).getD (x.floorAt (x.magnitude - 17)))

/-- The digits of a decimal in positional notation, without an exponent. -/
def positional (d : Decimal) : String :=
  let digits := Nat.toDigits 10 d.digits
  match d.exponent with
  | .ofNat zeros => String.ofList (digits ++ List.replicate zeros '0')
  | .negSucc places =>
    let places := places + 1
    let whole := digits.take (digits.length - places)
    let part := digits.drop (digits.length - places)
    let zeros := List.replicate (places - part.length) '0'
    String.ofList ((if whole.isEmpty then ['0'] else whole) ++ '.' :: zeros ++ part)

end Decimal

end DocStore
