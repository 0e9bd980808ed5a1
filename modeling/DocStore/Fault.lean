/-!
Faults and refusals. A *fault* is a request that has no answer at all: an index past the end,
a size that does not fit 64 bits. A *refusal* is an answer of the library, an error with a
cause. Decoders and queries can end either way, so both are values and neither is hidden
behind a default.

Sizes are numbers below `sizeLimit`, and sums, differences and products of them are checked where
the program computes them. What only counts the steps of a run, one at a time, is a plain number:
no run is long enough to pass the limit.
-/

namespace DocStore

/-- Sizes, offsets and positions are counted in 64 bits. -/
def sizeLimit : Nat := 0x10000000000000000

/-- The requests that have no answer. -/
inductive Fault where
  /-- A bit set of `size` bits was asked to store bit `index`. -/
  | bitOutOfRange (index size : Nat)
  /-- A posting names a document that the field does not have. -/
  | documentOutOfRange (document : Nat)
  /-- A dictionary of `size` values was asked for value `index`. -/
  | valueOutOfRange (index size : Nat)
  /-- An access past the end of stored bytes or of a table, or bounds out of order. -/
  | outOfRange
  /-- A size below zero, or one that 64 bits cannot hold or memory cannot be asked for, or a byte
  that eight bits cannot hold. -/
  | overflow
deriving DecidableEq, Repr

/-- The text of a fault that names what was asked for; plain accesses have none. -/
def Fault.message? : Fault → Option String
  | bitOutOfRange index size => some s!"bit {index} out of range {size}"
  | documentOutOfRange document => some s!"document {document} out of range"
  | valueOutOfRange index size => some s!"index {index} out of range {size}"
  | outOfRange | overflow => none

/-- The sum of two sizes, where 64 bits hold it. -/
def addSizes (a b : Nat) : Except Fault Nat :=
  if a + b < sizeLimit then .ok (a + b) else .error .overflow

theorem addSizes_of_lt {a b : Nat} (fits : a + b < sizeLimit) : addSizes a b = .ok (a + b) := by
  simp [addSizes, fits]

/-- The difference of two sizes, the second of which has to be the smaller one. -/
def subSizes (a b : Nat) : Except Fault Nat :=
  if b ≤ a then .ok (a - b) else .error .overflow

theorem subSizes_of_le {a b : Nat} (order : b ≤ a) : subSizes a b = .ok (a - b) := by
  simp [subSizes, order]

/-- The product of two sizes, where 64 bits hold it. -/
def mulSizes (a b : Nat) : Except Fault Nat :=
  if a * b < sizeLimit then .ok (a * b) else .error .overflow

theorem mulSizes_of_lt {a b : Nat} (fits : a * b < sizeLimit) : mulSizes a b = .ok (a * b) := by
  simp [mulSizes, fits]

/-- The sum of two bytes, where one byte holds it. -/
def addBytes (a b : UInt8) : Except Fault UInt8 :=
  if a.toNat + b.toNat < 256 then .ok (a + b) else .error .overflow

theorem addBytes_of_lt {a b : UInt8} (fits : a.toNat + b.toNat < 256) :
    addBytes a b = .ok (a + b) := by
  simp [addBytes, fits]

/-- A size brought between two bounds, which have to be in order. -/
def clampSize (low high size : Nat) : Except Fault Nat :=
  if low ≤ high then .ok (max low (min size high)) else .error .outOfRange

theorem clampSize_of_le {low high : Nat} (order : low ≤ high) (size : Nat) :
    clampSize low high size = .ok (max low (min size high)) := by
  simp [clampSize, order]

/-- Why a computation has no value: it was refused with an error, or it met a fault. -/
inductive Failure (ε : Type) where
  | refused (error : ε)
  | fault (cause : Fault)
deriving DecidableEq, Repr

/-- The same failure with its error restated. -/
def Failure.map {ε ε' : Type} (f : ε → ε') : Failure ε → Failure ε'
  | refused error => refused (f error)
  | fault cause => .fault cause

/-- A read that may meet a fault, as a step of a computation that may also be refused. -/
instance {ε : Type} : MonadLift (Except Fault) (Except (Failure ε)) where
  monadLift
    | .ok value => .ok value
    | .error cause => .error (.fault cause)

instance {ε : Type} {m : Type → Type} [Monad m] :
    MonadLift (Except Fault) (ExceptT (Failure ε) m) where
  monadLift
    | .ok value => pure value
    | .error cause => throw (.fault cause)

/-- Ends a computation with an error. -/
def refuse {ε α : Type} {m : Type → Type} [MonadExceptOf (Failure ε) m] (error : ε) : m α :=
  throw (Failure.refused error)

end DocStore
