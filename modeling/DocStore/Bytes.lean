/-!
Byte strings and their numbers. Stored numbers are little-endian; field values are encoded
big-endian, because byte strings are compared in lexicographic order.
-/

namespace DocStore

/-- A byte string, ordered lexicographically by unsigned bytes. -/
abbrev Bytes := List UInt8

namespace Bytes

/-- The `width` low bytes of a number, least significant first. -/
def littleEndian : Nat → Nat → Bytes
  | 0, _ => []
  | width + 1, value => UInt8.ofNat value :: littleEndian width (value / 256)

/-- The number that a byte string spells, least significant byte first. -/
def value : Bytes → Nat
  | [] => 0
  | byte :: rest => byte.toNat + 256 * value rest

/-- The `width` low bytes of a number, most significant first. -/
def bigEndian (width value : Nat) : Bytes := (littleEndian width value).reverse

/-- The number that a byte string spells, most significant byte first. -/
def bigValue (bytes : Bytes) : Nat := value bytes.reverse

/-- A 32-bit number; higher bits are not stored. -/
def ofUInt32 (value : Nat) : Bytes := littleEndian 4 value

/-- A 64-bit number; higher bits are not stored. -/
def ofUInt64 (value : Nat) : Bytes := littleEndian 8 value

/-- A byte string after its 32-bit length. -/
def counted (bytes : Bytes) : Bytes := ofUInt32 bytes.length ++ bytes

/-- Where each of the pieces of the given lengths ends, the first starting at `start`. -/
def endOffsets (start : Nat) : List Nat → List Nat
  | [] => []
  | length :: rest => (start + length) :: endOffsets (start + length) rest

/-- The offsets that part pieces of the given lengths: zero, and where each piece ends. -/
def offsets (lengths : List Nat) : List Nat := 0 :: endOffsets 0 lengths

@[simp] theorem length_littleEndian (width value : Nat) :
    (littleEndian width value).length = width := by
  induction width generalizing value with
  | zero => rfl
  | succ width ih => simp [littleEndian, ih]

@[simp] theorem length_ofUInt32 (value : Nat) : (ofUInt32 value).length = 4 :=
  length_littleEndian 4 value

@[simp] theorem length_ofUInt64 (value : Nat) : (ofUInt64 value).length = 8 :=
  length_littleEndian 8 value

@[simp] theorem length_endOffsets (start : Nat) (lengths : List Nat) :
    (endOffsets start lengths).length = lengths.length := by
  induction lengths generalizing start with
  | nil => rfl
  | cons length rest ih => simp [endOffsets, ih]

@[simp] theorem length_offsets (lengths : List Nat) :
    (offsets lengths).length = lengths.length + 1 := by
  simp [offsets]

end Bytes

end DocStore
