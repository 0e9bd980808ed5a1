import DocStore.Decimal.Binary64
import Mathlib.Data.EReal.Basic
import Mathlib.Data.EReal.Operations

/-! The numbers that 64 bits stand for. Below the sign, exponent and fraction are one numeral, and
it ascends with the number: each number is a multiple of the smallest one, and the next numeral
stands for a larger multiple. -/
namespace DocStore.Binary64

variable {bits a b : UInt64}

def magnitude (bits : UInt64) : Nat := bits.toNat % 2 ^ 63

def signed (bits : UInt64) : Int :=
  if isNegative bits then -(magnitude bits : Int) else magnitude bits

/-- The total order of IEEE 754. Negative bits come before the others; of two negative ones the
one with the larger magnitude comes first, of two others the one with the smaller. -/
def Precedes (a b : UInt64) : Prop :=
  match isNegative a, isNegative b with
  | true, false => True
  | false, true => False
  | false, false => magnitude a < magnitude b
  | true, true => magnitude b < magnitude a

theorem isNegative_iff : isNegative bits = true ↔ 2 ^ 63 ≤ bits.toNat := by
  have bound := bits.toNat_lt
  have shifted : (bits >>> 63).toNat = bits.toNat / 2 ^ 63 := by
    rw [UInt64.toNat_shiftRight, Nat.shiftRight_eq_div_pow]
    rfl
  rw [isNegative, beq_iff_eq, ← UInt64.toNat_inj, shifted]
  change bits.toNat / 2 ^ 63 = 1 ↔ _
  omega

theorem toNat_eq :
    bits.toNat = magnitude bits + if isNegative bits then 2 ^ 63 else 0 := by
  have bound := bits.toNat_lt
  rw [magnitude]
  split
  · have := isNegative_iff.mp ‹_›
    omega
  · have := mt isNegative_iff.mpr ‹_›
    omega

theorem magnitude_lt : magnitude bits < 2 ^ 63 := Nat.mod_lt _ (Nat.two_pow_pos 63)

theorem ofBits_eq : ofBits bits =
    if magnitude bits / 2 ^ 52 = 0x7FF then
      if magnitude bits % 2 ^ 52 = 0 then infinite else nan
    else if magnitude bits / 2 ^ 52 = 0 then
      if magnitude bits % 2 ^ 52 = 0 then zero
      else finite (magnitude bits % 2 ^ 52) (-1074) false
    else finite (2 ^ 52 + magnitude bits % 2 ^ 52) ((magnitude bits / 2 ^ 52 : Nat) - 1075)
      (magnitude bits % 2 ^ 52 == 0) := by
  have bound := bits.toNat_lt
  have exponent : ((bits >>> 52) &&& 0x7FF).toNat = magnitude bits / 2 ^ 52 := by
    rw [UInt64.toNat_and, UInt64.toNat_shiftRight, Nat.shiftRight_eq_div_pow]
    change bits.toNat / 2 ^ 52 &&& 2 ^ 11 - 1 = _
    rw [Nat.and_two_pow_sub_one_eq_mod, magnitude]
    omega
  have fraction : (bits &&& 0xFFFFFFFFFFFFF).toNat = magnitude bits % 2 ^ 52 := by
    rw [UInt64.toNat_and]
    change bits.toNat &&& 2 ^ 52 - 1 = _
    rw [Nat.and_two_pow_sub_one_eq_mod, magnitude]
    omega
  simp only [ofBits, exponent, fraction]
  rfl

/-- How often a number of some magnitude holds the smallest positive one, `2 ^ (-1074)`. -/
def units (magnitude : Nat) : Nat :=
  if magnitude / 2 ^ 52 = 0 then magnitude
  else (2 ^ 52 + magnitude % 2 ^ 52) * 2 ^ (magnitude / 2 ^ 52 - 1)

/-- The fraction grows by one unit of its exponent, and the last fraction of an exponent is
followed by the first of the next. -/
theorem units_lt_succ (n : Nat) : units n < units (n + 1) := by
  have place := Nat.div_add_mod n (2 ^ 52)
  rcases Nat.lt_or_ge (n % 2 ^ 52 + 1) (2 ^ 52) with within | last
  · have exponent : (n + 1) / 2 ^ 52 = n / 2 ^ 52 := by omega
    have fraction : (n + 1) % 2 ^ 52 = n % 2 ^ 52 + 1 := by omega
    rw [units, units, exponent, fraction]
    split
    · omega
    · exact Nat.mul_lt_mul_of_pos_right (by omega) (Nat.two_pow_pos _)
  · have exponent : (n + 1) / 2 ^ 52 = n / 2 ^ 52 + 1 := by omega
    have fraction : (n + 1) % 2 ^ 52 = 0 := by omega
    rw [units, units, exponent, fraction, if_neg (Nat.succ_ne_zero _), Nat.add_sub_cancel]
    split
    · rename_i first
      rw [first]
      omega
    · obtain ⟨before, earlier⟩ := Nat.exists_eq_succ_of_ne_zero ‹_›
      rw [earlier, Nat.succ_sub_one, show 2 ^ before.succ = 2 * 2 ^ before from Nat.pow_succ',
        ← Nat.mul_assoc]
      exact Nat.mul_lt_mul_of_pos_right (by omega) (Nat.two_pow_pos _)

theorem units_strictMono : StrictMono units := strictMono_nat_of_lt_succ units_lt_succ

/-- The number without its sign, infinity included. Bits of no number have none, and get 0. -/
noncomputable def size : Binary64 → EReal
  | nan | zero => 0
  | infinite => ⊤
  | finite mantissa exponent _ => ((mantissa * 2 ^ exponent : ℝ) : EReal)

noncomputable def number (bits : UInt64) : EReal :=
  if isNegative bits then -size (ofBits bits) else size (ofBits bits)

theorem ofBits_ne_nan : ofBits bits ≠ nan ↔ magnitude bits ≤ 0x7FF * 2 ^ 52 := by
  have bound := @magnitude_lt bits
  rw [ofBits_eq]
  split_ifs <;> simp <;> omega

theorem size_eq (known : ofBits bits ≠ nan) : size (ofBits bits) =
    if magnitude bits = 0x7FF * 2 ^ 52 then ⊤
    else ((units (magnitude bits) * 2 ^ (-1074 : ℤ) : ℝ) : EReal) := by
  have bound := ofBits_ne_nan.mp known
  rw [ofBits_eq]
  by_cases last : magnitude bits = 0x7FF * 2 ^ 52
  · rw [if_pos last, if_pos (by omega), if_pos (by omega)]
    rfl
  · rw [if_neg last, if_neg (by omega), units]
    by_cases low : magnitude bits / 2 ^ 52 = 0
    · rw [if_pos low, if_pos low, Nat.mod_eq_of_lt (by omega)]
      by_cases none : magnitude bits = 0
      · rw [if_pos none, none]
        simp [size]
      · rw [if_neg none, size]
    · rw [if_neg low, if_neg low, size]
      obtain ⟨before, earlier⟩ := Nat.exists_eq_succ_of_ne_zero low
      have scale : ((2 ^ before : Nat) : ℝ) * 2 ^ (-1074 : ℤ) =
          2 ^ ((before.succ : ℤ) - 1075) := by
        rw [Nat.cast_pow, Nat.cast_ofNat, ← zpow_natCast, ← zpow_add₀ two_ne_zero]
        congr 1
        omega
      rw [earlier, Nat.succ_sub_one, Nat.cast_mul, mul_assoc, scale]

theorem size_lt (known : ofBits b ≠ nan) (less : magnitude a < magnitude b) :
    size (ofBits a) < size (ofBits b) := by
  have bound := ofBits_ne_nan.mp known
  rw [size_eq (ofBits_ne_nan.mpr (Nat.le_of_lt (Nat.lt_of_lt_of_le less bound))), size_eq known,
    if_neg (by omega)]
  split
  · exact EReal.coe_lt_top _
  · rw [EReal.coe_lt_coe_iff]
    exact mul_lt_mul_of_pos_right (Nat.cast_lt.mpr (units_strictMono less))
      (zpow_pos two_pos _)

theorem size_nonneg (known : ofBits bits ≠ nan) : 0 ≤ size (ofBits bits) := by
  rw [size_eq known]
  split
  · exact le_top
  · exact EReal.coe_nonneg.mpr (mul_nonneg (Nat.cast_nonneg _) (zpow_pos two_pos _).le)

theorem size_pos (known : ofBits bits ≠ nan) (some : magnitude bits ≠ 0) :
    0 < size (ofBits bits) :=
  lt_of_le_of_lt (@size_nonneg 0 (by decide)) (size_lt known (Nat.pos_of_ne_zero some))

theorem number_lt (known : ofBits a ≠ nan) (known' : ofBits b ≠ nan)
    (less : signed a < signed b) : number a < number b := by
  have positive := size_nonneg known'
  have negative : -size (ofBits a) ≤ 0 := by
    rw [EReal.neg_le, neg_zero]
    exact size_nonneg known
  cases sign : isNegative a <;> cases sign' : isNegative b <;>
    simp only [signed, number, sign, sign', Bool.false_eq_true, if_true, if_false] at less ⊢
  · exact size_lt known' (Int.ofNat_lt.mp less)
  · omega
  · -- the two magnitudes are not both zero
    rcases Nat.eq_zero_or_pos (magnitude b) with zero | some
    · refine lt_of_lt_of_le ?_ positive
      rw [EReal.neg_lt_comm, neg_zero]
      exact size_pos known (by omega)
    · exact lt_of_le_of_lt negative (size_pos known' some.ne')
  · exact EReal.neg_lt_neg_iff.mpr (size_lt known (by omega))

/-- The magnitude and the sign together are the bits. -/
theorem toNat_inj (sign : isNegative a = isNegative b) (same : magnitude a = magnitude b) :
    a = b := by
  rw [← UInt64.toNat_inj, toNat_eq, toNat_eq, sign, same]

def OppositeZeros (a b : UInt64) : Prop :=
  a = 0x8000000000000000 ∧ b = 0 ∨ a = 0 ∧ b = 0x8000000000000000

instance : Decidable (OppositeZeros a b) := inferInstanceAs (Decidable (_ ∨ _))

/-- Two numbers are equal if their bits are, and the two zeros are. -/
theorem signed_eq_iff : signed a = signed b ↔ a = b ∨ OppositeZeros a b := by
  constructor
  · intro same
    cases sign : isNegative a <;> cases sign' : isNegative b <;>
      simp only [signed, sign, sign', Bool.false_eq_true, if_true, if_false] at same
    · exact .inl (toNat_inj (sign.trans sign'.symm) (by omega))
    · refine .inr (.inr ⟨toNat_inj sign ?_, toNat_inj sign' ?_⟩)
      · exact (by omega : magnitude a = 0)
      · exact (by omega : magnitude b = 0)
    · refine .inr (.inl ⟨toNat_inj sign ?_, toNat_inj sign' ?_⟩)
      · exact (by omega : magnitude a = 0)
      · exact (by omega : magnitude b = 0)
    · exact .inl (toNat_inj (sign.trans sign'.symm) (by omega))
  · rintro (rfl | ⟨rfl, rfl⟩ | ⟨rfl, rfl⟩)
    · rfl
    · decide
    · decide

/-- The two zeros are the same number. -/
theorem number_zeros : number 0x8000000000000000 = number 0 := by
  have zero : ofBits 0x8000000000000000 = zero := by decide
  have plain : ofBits 0 = .zero := by decide
  have negative : isNegative 0x8000000000000000 = true := by decide
  have positive : isNegative 0 = false := by decide
  simp [number, zero, plain, negative, positive, size]

theorem number_eq (same : signed a = signed b) : number a = number b := by
  rcases signed_eq_iff.mp same with rfl | ⟨rfl, rfl⟩ | ⟨rfl, rfl⟩
  · rfl
  · exact number_zeros
  · exact number_zeros.symm

/-- The signed magnitudes of numbers compare as the numbers do. -/
theorem number_lt_iff (known : ofBits a ≠ nan) (known' : ofBits b ≠ nan) :
    number a < number b ↔ signed a < signed b := by
  refine ⟨fun less => ?_, number_lt known known'⟩
  rcases Int.lt_trichotomy (signed a) (signed b) with below | same | above
  · exact below
  · exact absurd less (number_eq same).not_lt
  · exact absurd less (number_lt known' known above).not_gt

theorem number_eq_iff (known : ofBits a ≠ nan) (known' : ofBits b ≠ nan) :
    number a = number b ↔ signed a = signed b := by
  refine ⟨fun same => ?_, number_eq⟩
  rcases Int.lt_trichotomy (signed a) (signed b) with below | equal | above
  · exact absurd same (number_lt known known' below).ne
  · exact equal
  · exact absurd same (number_lt known' known above).ne'

/-- The total order goes by the signed magnitudes, and puts minus zero before zero. -/
theorem precedes_iff : Precedes a b ↔ signed a < signed b ∨ a = 0x8000000000000000 ∧ b = 0 := by
  have negative : isNegative a = false → ¬ a = 0x8000000000000000 := by
    rintro sign rfl
    exact absurd sign (by decide)
  have positive : isNegative b = true → ¬ b = 0 := by
    rintro sign rfl
    exact absurd sign (by decide)
  cases sign : isNegative a <;> cases sign' : isNegative b <;>
    simp only [Precedes, signed, sign, sign', Bool.false_eq_true, if_true, if_false]
  · simp [negative sign]
  · simp [negative sign]
  · rw [true_iff, or_iff_not_imp_left]
    intro equal
    exact ⟨toNat_inj sign (show magnitude a = 0 by omega),
      toNat_inj sign' (show magnitude b = 0 by omega)⟩
  · simp [positive sign']

end DocStore.Binary64
