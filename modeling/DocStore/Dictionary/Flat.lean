import DocStore.Format.Decoder

/-!
Flat dictionaries: values stored one after the other in ascending order, either all of one
width or found through a table of offsets. The order is not checked when they are decoded.
-/

namespace DocStore

/-- Values of one width, without an offset table. -/
structure FixedTable where
  size : Nat
  width : Nat
  elements : View

namespace FixedTable

def decode : Decoder FixedTable := do
  let size ← Decoder.uint32 "fixed dictionary size"
  let width ← Decoder.uint32 "fixed dictionary element length"
  let length ← Decoder.tableSize size width "fixed dictionary"
  let elements ← Decoder.slice length "fixed dictionary elements"
  return { size, width, elements }

def get (t : FixedTable) (rank : Nat) : Except Fault Bytes :=
  t.elements.bytesAt (rank * t.width) t.width

end FixedTable

/-- Values of any width. The value of rank `i` lies between offset `i` and offset `i + 1`. -/
structure VariableTable where
  size : Nat
  offsets : View
  elements : View

namespace VariableTable

def decode : Decoder VariableTable := do
  let size ← Decoder.uint32 "variable dictionary size"
  let entries ← Decoder.offsetCount size "variable dictionary size overflow"
  let offsets ← Decoder.table entries 4 "variable dictionary offsets"
  let total ← Decoder.lastOffset "variable dictionary" entries
    fun entry => offsets.uint32At (entry * 4)
  let elements ← Decoder.slice total "variable dictionary bytes"
  return { size, offsets, elements }

def get (t : VariableTable) (rank : Nat) : Except Fault Bytes := do
  let start ← t.offsets.uint32At (rank * 4)
  let stop ← t.offsets.uint32At ((rank + 1) * 4)
  t.elements.bytesAt start (← subSizes stop start)

end VariableTable

/-- The first index of `[low, high)` from which on `isBelow` fails, for a test that once it
fails keeps failing; `high` if it never fails. The sizes are checked beside the numbers that are
used, by which the window is seen to shrink. -/
def partitionPoint (isBelow : Nat → Except Fault Bool) (low high : Nat) : Except Fault Nat :=
  if more : low < high then do
    let middle := low + (high - low) / 2
    let _ ← subSizes high low
    let _ ← addSizes low ((high - low) / 2)
    if ← isBelow middle then
      let _ ← addSizes middle 1
      partitionPoint isBelow (middle + 1) high
    else
      partitionPoint isBelow low middle
  else
    .ok low
termination_by high - low

end DocStore
