import DocStore.Bits.Word

/-! Words by their bits. -/
namespace DocStore.Word

variable {a b : UInt64} {i k : Nat}

@[simp] theorem hasBit_or : hasBit (a ||| b) i = (hasBit a i || hasBit b i) := by
  simp only [hasBit, UInt64.toBitVec_or, BitVec.getLsbD_or]

@[simp] theorem hasBit_and : hasBit (a &&& b) i = (hasBit a i && hasBit b i) := by
  simp only [hasBit, UInt64.toBitVec_and, BitVec.getLsbD_and]

theorem hasBit_not (inside : i < 64) : hasBit (~~~ a) i = !hasBit a i := by
  simp [hasBit, inside]

theorem hasBit_past (past : 64 ≤ i) : hasBit a i = false :=
  BitVec.getLsbD_of_ge _ _ past

theorem hasBit_allBits (inside : i < 64) : hasBit allBits i = true := by
  have all : allBits = ~~~ 0 := by decide
  rw [all, hasBit_not inside, hasBit_zero]
  rfl

theorem hasBit_shiftLeft (inside : i < 64) (small : k < 64) :
    hasBit (a <<< UInt64.ofNat k) i = (decide (k ≤ i) && hasBit a (i - k)) := by
  have amount : (BitVec.ofNat 64 k % 64).toNat = k := by
    rw [BitVec.toNat_umod, BitVec.toNat_ofNat, Nat.mod_eq_of_lt (Nat.lt_trans small (by decide))]
    exact Nat.mod_eq_of_lt small
  simp only [hasBit, UInt64.toBitVec_shiftLeft, UInt64.toBitVec_ofNat']
  rw [BitVec.shiftLeft_eq', BitVec.getLsbD_shiftLeft, amount, decide_eq_true inside, Bool.true_and,
    ← decide_not]
  simp only [Nat.not_lt]

theorem hasBit_shiftRight (small : k < 64) :
    hasBit (a >>> UInt64.ofNat k) i = hasBit a (k + i) := by
  simp [hasBit, UInt64.toBitVec_shiftRight, Nat.mod_eq_of_lt small]

theorem hasBit_single (inside : i < 64) : hasBit (single k) i = decide (i = k % 64) := by
  have one : ∀ j, hasBit 1 j = decide (j = 0) := fun j => by
    simp [hasBit, BitVec.getLsbD_one]
  rw [single, hasBit_shiftLeft inside (Nat.mod_lt _ (by decide)), one]
  grind

theorem hasBit_bitsFrom (inside : i < 64) : hasBit (bitsFrom k) i = decide (k % 64 ≤ i) := by
  rw [bitsFrom, hasBit_shiftLeft inside (Nat.mod_lt _ (by decide)),
    hasBit_allBits (by omega), Bool.and_true]

theorem hasBit_lastMask (inside : i < 64) (size : Nat) :
    hasBit (lastMask size) i = decide (size % 64 = 0 ∨ i < size % 64) := by
  unfold lastMask
  split
  · rename_i whole
    simp [hasBit_allBits inside, whole]
  · rename_i part
    rw [hasBit_shiftRight (by omega)]
    by_cases below : i < size % 64
    · rw [hasBit_allBits (by omega), decide_eq_true (Or.inr below)]
    · rw [hasBit_past (by omega), decide_eq_false (by simp [part, below])]

/-- Words are equal when their bits are. -/
theorem eq_of_hasBit (same : ∀ i < 64, hasBit a i = hasBit b i) : a = b := by
  refine UInt64.toBitVec_inj.mp (BitVec.eq_of_getLsbD_eq fun i inside => same i inside)

theorem ne_zero_iff : a ≠ 0 ↔ ∃ i < 64, hasBit a i = true := by
  constructor
  · intro some
    refine Decidable.byContradiction fun none => some (eq_of_hasBit fun i inside => ?_)
    rw [hasBit_zero]
    exact Bool.eq_false_iff.mpr fun bit => none ⟨i, inside, bit⟩
  · rintro ⟨i, _, bit⟩ rfl
    simp [hasBit_zero] at bit

theorem lowest?_eq_none : lowest? a = none ↔ a = 0 := by
  rw [lowest?_eq_find?, List.find?_eq_none]
  constructor
  · intro clear
    refine eq_of_hasBit fun i inside => ?_
    rw [hasBit_zero]
    exact Bool.eq_false_iff.mpr (clear i (List.mem_range.mpr inside))
  · rintro rfl i _
    simp [hasBit_zero]

end DocStore.Word
