import DocStore.Bytes

/-!
Field values and their encodings. The encoding of a value is a byte string, and the encodings
of one type compare as their values do: integers big-endian, signed ones with the sign bit
turned, floating-point numbers with the sign bit turned if they are positive and all bits
turned if they are negative.
-/

namespace DocStore

/-- A value of a field. -/
inductive Value where
  | bytes (value : Bytes)
  | text (value : String)
  | int32 (value : Int32)
  | int64 (value : Int64)
  | uint64 (value : UInt64)
  /-- A floating-point number, as its 64 bits. -/
  | float (bits : UInt64)
  | bool (value : Bool)
deriving DecidableEq

namespace Value

/-- The sign bit of 32 bits. -/
def signBit32 : UInt32 := 0x80000000

/-- The sign bit of 64 bits. -/
def signBit64 : UInt64 := 0x8000000000000000

/-- The bits of a floating-point number, turned so that they ascend with the number. -/
def orderedBits (bits : UInt64) : UInt64 :=
  if bits &&& signBit64 = 0 then bits ^^^ signBit64 else ~~~ bits

/-- The bits of the floating-point number that `orderedBits` turned. -/
def unorderedBits (ordered : UInt64) : UInt64 :=
  if ordered &&& signBit64 = 0 then ~~~ ordered else ordered ^^^ signBit64

/-- The bytes of a text. -/
def textBytes (text : String) : Bytes := text.toUTF8.data.toList

def encode : Value → Bytes
  | bytes value => value
  | text value => textBytes value
  | int32 value => Bytes.bigEndian 4 (value.toUInt32 ^^^ signBit32).toNat
  | int64 value => Bytes.bigEndian 8 (value.toUInt64 ^^^ signBit64).toNat
  | uint64 value => Bytes.bigEndian 8 value.toNat
  | float bits => Bytes.bigEndian 8 (orderedBits bits).toNat
  | bool value => [if value then 1 else 0]

/-- The length of every encoding of the type of a value, for types that have one. -/
def width? : Value → Option Nat
  | bytes _ | text _ => none
  | int32 _ => some 4
  | int64 _ | uint64 _ | float _ => some 8
  | bool _ => some 1

def decodeInt32? (encoded : Bytes) : Option Int32 :=
  if encoded.length = 4 then
    some (UInt32.ofNat (Bytes.bigValue encoded) ^^^ signBit32).toInt32
  else
    none

def decodeInt64? (encoded : Bytes) : Option Int64 :=
  if encoded.length = 8 then
    some (UInt64.ofNat (Bytes.bigValue encoded) ^^^ signBit64).toInt64
  else
    none

def decodeUInt64? (encoded : Bytes) : Option UInt64 :=
  if encoded.length = 8 then some (UInt64.ofNat (Bytes.bigValue encoded)) else none

def decodeFloat? (encoded : Bytes) : Option UInt64 :=
  if encoded.length = 8 then
    some (unorderedBits (UInt64.ofNat (Bytes.bigValue encoded)))
  else
    none

end Value

end DocStore
