import DocStore.Format.Error
import DocStore.View

/-!
Decoders: computations that read a view from its cursor on. The cursor stays where a failing
decoder left it. The number at a cursor, counted bytes and checked offset tables are shared by
every stored structure.
-/

namespace DocStore

/-- A computation that consumes a view, and is refused or broken off on bytes that make no
sense. -/
abbrev Decoder := ExceptT (Failure FormatError) (StateM View)

namespace Decoder

/-- What a decoder makes of a view, and the view after it. -/
def runOn {α : Type} (decoder : Decoder α) (v : View) :
    Except (Failure FormatError) α × View :=
  (ExceptT.run decoder).run v

def corrupt {α : Type} (reason : Corruption) : Decoder α := refuse (FormatError.corrupt reason)

def position : Decoder Nat := return (← get).position

def uint32 (what : String) : Decoder Nat := do
  let v ← get
  match v.readUInt32? with
  | some (value, rest) =>
    set rest
    return value
  | none => refuse (FormatError.truncated v.position what)

def slice (count : Nat) (what : String) : Decoder View := do
  let v ← get
  match v.readSlice? count with
  | some (taken, rest) =>
    set rest
    return taken
  | none => refuse (FormatError.truncated v.position what)

def counted (what : String) : Decoder View := do
  slice (← uint32 what) what

/-- The bytes of a table of `count` entries of `width` bytes, if 64 bits hold it. -/
def tableSize (count width : Nat) (table : String) : Decoder Nat :=
  if count * width < sizeLimit then
    return count * width
  else
    corrupt (.tableTooLarge table)

def table (count width : Nat) (what : String) : Decoder View := do
  slice (← tableSize count width what) what

/-- The number of offsets of `count` entries: one more than there are entries. -/
def offsetCount (count : Nat) (tooMany : String) : Decoder Nat :=
  if count + 1 < sizeLimit then return count + 1 else corrupt (.other tooMany)

/-- The last of `entries` offsets, which have to start at zero and never go down. -/
def lastOffset (table : String) (entries : Nat) (offsetAt : Nat → Except Fault Nat) :
    Decoder Nat :=
  (List.range entries).foldlM (fun previous entry => do
    let offset ← offsetAt entry
    if (entry = 0 ∧ offset ≠ 0) ∨ offset < previous then
      corrupt (.offsetOutOfOrder table entry)
    else
      return offset) 0

end Decoder

end DocStore
