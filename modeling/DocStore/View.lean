import DocStore.Bytes
import DocStore.Fault

/-!
A view: a window of shared bytes with a read cursor. Sub-views share the bytes of their parent
and never reach outside its window. Access by offset is for regions that a decoder has cut out
and meets a fault outside the window. The size of such a region is a number of 64 bits, so that an
address that 64 bits cannot hold is outside as well and needs no fault of its own. Reading at the
cursor answers `none` when too few bytes remain and then leaves the cursor where it was.
-/

namespace DocStore

/-- A window of `size` bytes of `data` from `start`, with a cursor inside the window. -/
structure View where
  data : Array UInt8
  start : Nat
  size : Nat
  position : Nat
  /-- Whether the bytes are those of a file that stays on disk. -/
  mapped : Bool
  window_le : start + size ≤ data.size
  position_le : position ≤ size

namespace View

/-- The whole of an array of bytes. -/
def ofArray (data : Array UInt8) (mapped : Bool) : View where
  data
  start := 0
  size := data.size
  position := 0
  mapped
  window_le := by simp
  position_le := by simp

/-- The whole of a byte string held in memory. -/
def ofBytes (bytes : Bytes) : View := ofArray bytes.toArray false

/-- The whole of a file left on disk. An empty file needs no mapping. -/
def ofMapped (bytes : Bytes) : View := ofArray bytes.toArray !bytes.isEmpty

def window (v : View) (offset count : Nat) : Bytes :=
  (v.data.extract (v.start + offset) (v.start + offset + count)).toList

def bytes (v : View) : Bytes := v.window 0 v.size

/-- The bytes between the cursor and the end. -/
def remaining (v : View) : Nat := v.size - v.position

/-- Whether two views hold the same bytes, wherever their cursors and windows are. -/
def sameBytes (v w : View) : Bool := v.bytes == w.bytes

/-- Moves the cursor, at most to the end. The target is counted from the start of the shared
bytes, and that sum of sizes can overflow. -/
def setPosition (v : View) (position : Nat) : Except Fault View := do
  let _ ← addSizes v.start position
  return { v with position := min position v.size, position_le := Nat.min_le_right _ _ }

/-- The sub-view `[offset, offset + count)`, if it lies inside this view. -/
def slice? (v : View) (offset count : Nat) : Option View :=
  if inside : offset + count ≤ v.size then
    some { v with
      start := v.start + offset
      size := count
      position := 0
      window_le := by have := v.window_le; omega
      position_le := Nat.zero_le _ }
  else
    none

/-- The sub-view from `offset` to the end, if `offset` is not past it. -/
def sliceFrom? (v : View) (offset : Nat) : Option View :=
  if offset ≤ v.size then v.slice? offset (v.size - offset) else none

def byteAt (v : View) (offset : Nat) : Except Fault UInt8 :=
  if inside : offset < v.size then
    have : v.start + offset < v.data.size := by have := v.window_le; omega
    .ok v.data[v.start + offset]
  else
    .error .outOfRange

def bytesAt (v : View) (offset count : Nat) : Except Fault Bytes :=
  if offset + count ≤ v.size then .ok (v.window offset count) else .error .outOfRange

def uint32At (v : View) (offset : Nat) : Except Fault Nat :=
  return Bytes.value (← v.bytesAt offset 4)

def uint64At (v : View) (offset : Nat) : Except Fault Nat :=
  return Bytes.value (← v.bytesAt offset 8)

/-- The view with its cursor `count` bytes further, if that many remain. -/
def skip? (v : View) (count : Nat) : Option View :=
  if enough : v.position + count ≤ v.size then
    some { v with position := v.position + count, position_le := enough }
  else
    none

def read? (v : View) (count : Nat) : Option (Bytes × View) :=
  (v.skip? count).map fun rest => (v.window v.position count, rest)

def readUInt32? (v : View) : Option (Nat × View) :=
  (v.read? 4).map fun (bytes, rest) => (Bytes.value bytes, rest)

def readUInt64? (v : View) : Option (Nat × View) :=
  (v.read? 8).map fun (bytes, rest) => (Bytes.value bytes, rest)

/-- The next `count` bytes as a sub-view, and the view after them. -/
def readSlice? (v : View) (count : Nat) : Option (View × View) := do
  let taken ← v.slice? v.position count
  let rest ← v.skip? count
  return (taken, rest)

/-- One line for a reader of traces: size, cursor and kind of backing. -/
def describe (v : View) : String :=
  s!"Buffer \x7b len: {v.size}, position: {v.position}, mapped: {v.mapped} \x7d"

@[simp] theorem length_bytes (v : View) : v.bytes.length = v.size := by
  have := v.window_le
  simp [bytes, window]
  omega

@[simp] theorem size_ofBytes (bytes : Bytes) : (ofBytes bytes).size = bytes.length := by
  simp [ofBytes, ofArray]

@[simp] theorem bytes_ofBytes (bytes : Bytes) : (ofBytes bytes).bytes = bytes := by
  simp [View.bytes, window, ofBytes, ofArray]

end View

end DocStore
