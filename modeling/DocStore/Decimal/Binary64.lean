/-!
The bits of a 64-bit binary floating-point number: a sign, an exponent of 11 bits and a
fraction of 52 bits.
-/

namespace DocStore

/-- What the bits of a number stand for, its sign apart. -/
inductive Binary64 where
  | nan
  | infinite
  | zero
  /-- The positive number `mantissa * 2 ^ exponent`. `atPower` says that it is a power of two,
  whose neighbour below is nearer than the one above. -/
  | finite (mantissa : Nat) (exponent : Int) (atPower : Bool)
deriving DecidableEq, Repr

namespace Binary64

def isNegative (bits : UInt64) : Bool := bits >>> 63 == 1

/-- The number without its sign. -/
def ofBits (bits : UInt64) : Binary64 :=
  let exponent := ((bits >>> 52) &&& 0x7FF).toNat
  let fraction := (bits &&& 0xFFFFFFFFFFFFF).toNat
  if exponent = 0x7FF then
    if fraction = 0 then infinite else nan
  else if exponent = 0 then
    if fraction = 0 then zero else finite fraction (-1074) false
  else
    finite (0x10000000000000 + fraction) (exponent - 1075) (fraction == 0)

end Binary64

end DocStore
