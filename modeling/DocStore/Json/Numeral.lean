/-!
Numbers as they are written in JSON, and the machine numbers they stand for. Integers that 64
bits hold are exact. Every other numeral is a floating-point number computed in two steps: the
digits that fit 64 bits are read as an integer, and that is multiplied or divided by a power of
ten, each step rounded.
-/

namespace DocStore.Json

/-- The parts of a written number. -/
structure Numeral where
  negative : Bool
  /-- The digits in front of the point. -/
  whole : List Nat
  /-- The digits after the point, if there is one. -/
  part : Option (List Nat)
  /-- Whether the exponent is negative, and its digits, if there is one. -/
  exponent : Option (Bool × List Nat)
deriving DecidableEq, Repr

/-- A machine number. -/
inductive Number where
  | signed (value : Int64)
  | unsigned (value : UInt64)
  /-- A floating-point number, as its 64 bits. -/
  | float (bits : UInt64)
deriving DecidableEq

namespace Numeral

/-- Appends digits to a number as long as it stays below `limit`; also answers the digits that
are left. -/
def appendDigits (limit : Nat) : Nat → List Nat → Nat × List Nat
  | value, [] => (value, [])
  | value, digit :: rest =>
    if value * 10 + digit < limit then appendDigits limit (value * 10 + digit) rest
    else (value, digit :: rest)

def tenTo (n : Nat) : Float := Float.ofScientific 1 false n

/-- The greatest power of ten that is used at once. -/
def greatestStep : Nat := 308

/-- A floating-point number divided by a power of ten, in steps. -/
def divideByTenTo (x : Float) (n : Nat) : Float :=
  if n ≤ greatestStep then x / tenTo n
  else if x == 0 then x
  else divideByTenTo (x / tenTo greatestStep) (n - greatestStep)
termination_by n
decreasing_by
  have positive : 0 < greatestStep := by decide
  omega

/-- The floating-point number of an integer and a power of ten, if it is finite. -/
def scale? (significand : Nat) (exponent : Int) : Option Float :=
  let x := (UInt64.ofNat significand).toFloat
  match exponent with
  | .negSucc n => some (divideByTenTo x (n + 1))
  | .ofNat n =>
    if n ≤ greatestStep then
      let scaled := x * tenTo n
      if scaled.isInf then none else some scaled
    else if x == 0 then some x
    else none

/-- The digits that count and the power of ten they are multiplied by, the exponent of the
numeral apart. Digits in front of the point that do not fit are counted, digits after it are
dropped. -/
def significand (n : Numeral) : Nat × Int :=
  let (value, uncounted) := appendDigits UInt64.size 0 n.whole
  let part := n.part.getD []
  let (value, dropped) := appendDigits UInt64.size value part
  (value, (uncounted.length : Int) - ((part.length - dropped.length : Nat) : Int))

/-- The magnitude of a numeral as a floating-point number, if it is finite. An exponent past 32
bits leaves nothing of a small number, and no number of a great one. -/
def magnitude? (n : Numeral) : Option Float :=
  let (value, power) := n.significand
  match n.exponent with
  | none => scale? value power
  | some (negative, digits) =>
    match appendDigits (UInt32.size / 2) 0 digits with
    | (exponent, []) => scale? value (if negative then power - exponent else power + exponent)
    | _ => if value ≠ 0 ∧ !negative then none else some 0

/-- The integer of a numeral without point and exponent, where 64 bits hold it. -/
def integer? (n : Numeral) : Option Number :=
  if n.part.isNone ∧ n.exponent.isNone then
    match appendDigits UInt64.size 0 n.whole with
    | (value, []) =>
      if n.negative then
        if 0 < value ∧ value ≤ UInt64.size / 2 then some (.signed (Int64.ofInt (-value))) else none
      else if value < UInt64.size / 2 then some (.signed (Int64.ofInt value))
      else some (.unsigned (UInt64.ofNat value))
    | _ => none
  else
    none

/-- The machine number of a numeral, if there is one. -/
def number? (n : Numeral) : Option Number :=
  n.integer? <|> n.magnitude?.map fun x => .float (if n.negative then -x else x).toBits

end Numeral

end DocStore.Json
