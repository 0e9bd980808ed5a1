import DocStore.Fault

/-!
Words of 64 bits: how many a set needs, which bits of the last one count, and how single bits
are read and written.
-/

namespace DocStore

def wordCount (size : Nat) : Nat := (size + 63) / 64

/-- The words that hold `size` bits, counted in 64-bit sizes. -/
def wordsFor (size : Nat) : Except Fault Nat := return (← addSizes size 63) / 64

theorem div_lt_wordCount {index size : Nat} (inside : index < size) :
    index / 64 < wordCount size := by
  unfold wordCount
  omega

namespace Word

def allBits : UInt64 := 0xFFFFFFFFFFFFFFFF

def single (i : Nat) : UInt64 := 1 <<< (UInt64.ofNat (i % 64))

def bitsFrom (i : Nat) : UInt64 := allBits <<< (UInt64.ofNat (i % 64))

/-- The bits of the last word of a set that stand for a member: all of them when `size` is a
multiple of 64. -/
def lastMask (size : Nat) : UInt64 :=
  if size % 64 = 0 then allBits else allBits >>> (UInt64.ofNat (64 - size % 64))

def hasBit (word : UInt64) (i : Nat) : Bool := word.toBitVec.getLsbD i

def positions (word : UInt64) : List Nat :=
  if word = 0 then [] else (List.range 64).filter (hasBit word)

def count (word : UInt64) : Nat := (positions word).length

def lowest? (word : UInt64) : Option Nat :=
  if word = 0 then none else (List.range 64).find? (hasBit word)

theorem hasBit_zero (i : Nat) : hasBit 0 i = false := by
  simp [hasBit]

/-- The test for zero only saves time. -/
theorem positions_eq_filter (word : UInt64) :
    positions word = (List.range 64).filter (hasBit word) := by
  unfold positions
  split
  · subst word
    simp [hasBit_zero]
  · rfl

/-- The test for zero only saves time. -/
theorem lowest?_eq_find? (word : UInt64) :
    lowest? word = (List.range 64).find? (hasBit word) := by
  unfold lowest?
  split
  · subst word
    exact (List.find?_eq_none.mpr (by simp [hasBit_zero])).symm
  · rfl

end Word

end DocStore
