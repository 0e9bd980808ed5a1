import DocStore.Proofs.Value.Numbers
import DocStore.Proofs.Views
import DocStore.Value.Basic
import Mathlib.Data.Nat.Bitwise

/-! Encodings against the order of what they encode. Big-endian bytes of one length compare as
their numbers, so each type needs just a numbering that ascends with its values and that its
decoder undoes. -/
namespace DocStore

namespace Bytes

variable {a b : Bytes}

theorem value_concat (bytes : Bytes) (last : UInt8) :
    value (bytes ++ [last]) = value bytes + 256 ^ bytes.length * last.toNat := by
  induction bytes with
  | nil => simp [value]
  | cons byte rest ih =>
    rw [List.cons_append, value, value, ih, List.length_cons, Nat.pow_succ', Nat.mul_add,
      Nat.add_assoc, Nat.mul_assoc]

theorem bigValue_cons (first : UInt8) (rest : Bytes) :
    bigValue (first :: rest) = bigValue rest + 256 ^ rest.length * first.toNat := by
  rw [bigValue, List.reverse_cons, value_concat, List.length_reverse, bigValue]

theorem bigValue_lt (bytes : Bytes) : bigValue bytes < 256 ^ bytes.length := by
  rw [bigValue, ← List.length_reverse]
  exact value_lt _

/-- Of two numbers in a positional system, the leading digit decides first. -/
theorem add_mul_lt_add_mul {base low low' high high' : Nat} (small : low < base)
    (small' : low' < base) :
    low + base * high < low' + base * high' ↔ high < high' ∨ high = high' ∧ low < low' := by
  have apart : ∀ {x y : Nat}, x < y → base * x + base ≤ base * y := fun less =>
    Nat.mul_le_mul_left base less
  rcases Nat.lt_trichotomy high high' with less | rfl | more
  · have := apart less
    omega
  · omega
  · have := apart more
    omega

/-- Byte strings of one length compare as the numbers that they spell. -/
theorem lt_iff_bigValue (alike : a.length = b.length) : a < b ↔ bigValue a < bigValue b := by
  induction a generalizing b with
  | nil =>
    obtain rfl := List.length_eq_zero_iff.mp alike.symm
    simp
  | cons first rest ih =>
    cases b with
    | nil => simp at alike
    | cons first' rest' =>
      have alike : rest.length = rest'.length := Nat.succ.inj alike
      rw [List.cons_lt_cons_iff, ih alike, bigValue_cons, bigValue_cons, ← alike,
        add_mul_lt_add_mul (bigValue_lt rest) (alike ▸ bigValue_lt rest'), UInt8.toNat_inj,
        UInt8.lt_iff_toNat_lt]

@[simp] theorem length_bigEndian (width n : Nat) : (bigEndian width n).length = width := by
  rw [bigEndian, List.length_reverse, length_littleEndian]

theorem bigValue_bigEndian {width n : Nat} (small : n < 256 ^ width) :
    bigValue (bigEndian width n) = n := by
  rw [bigValue, bigEndian, List.reverse_reverse, value_littleEndian, Nat.mod_eq_of_lt small]

theorem bigEndian_bigValue (bytes : Bytes) : bigEndian bytes.length (bigValue bytes) = bytes := by
  rw [bigEndian, bigValue, ← List.length_reverse, littleEndian_value, List.reverse_reverse]

theorem bigEndian_lt {width n m : Nat} (small : n < 256 ^ width) (small' : m < 256 ^ width) :
    bigEndian width n < bigEndian width m ↔ n < m := by
  rw [lt_iff_bigValue (by simp), bigValue_bigEndian small, bigValue_bigEndian small']

end Bytes

/-- An encoding in byte strings of one length that compare as what they encode, and a decoder
that undoes it and reads nothing else. -/
structure Encodes {α : Type} (width : Nat) (encode : α → Bytes) (decode? : Bytes → Option α)
    (before : α → α → Prop) : Prop where
  ordered : ∀ a b, encode a < encode b ↔ before a b
  decodes : ∀ a, decode? (encode a) = some a
  reads : ∀ bytes : Bytes, bytes.length = width → ∃ a, decode? bytes = some a ∧ encode a = bytes
  refuses : ∀ bytes : Bytes, bytes.length ≠ width → decode? bytes = none

/-- A numbering of a type by all numbers of some bytes gives an encoding. -/
theorem Encodes.of_numbering {α : Type} {width : Nat} {number : α → Nat} {item : Nat → α}
    {before : α → α → Prop} (small : ∀ a, number a < 256 ^ width)
    (named : ∀ a, item (number a) = a) (numbered : ∀ n < 256 ^ width, number (item n) = n)
    (ascends : ∀ a b, number a < number b ↔ before a b) :
    Encodes width (fun a => Bytes.bigEndian width (number a))
      (fun bytes => if bytes.length = width then some (item (Bytes.bigValue bytes)) else none)
      before where
  ordered a b := (Bytes.bigEndian_lt (small a) (small b)).trans (ascends a b)
  decodes a := by
    rw [if_pos (Bytes.length_bigEndian _ _), Bytes.bigValue_bigEndian (small a), named]
  reads bytes wide := by
    refine ⟨_, if_pos wide, ?_⟩
    rw [numbered _ (wide ▸ Bytes.bigValue_lt bytes), ← wide, Bytes.bigEndian_bigValue]
  refuses bytes narrow := if_neg narrow

namespace Value

/-- Turning the leading bit moves the lower half of the numerals above the upper half. -/
theorem xor_leading {n width : Nat} (small : n < 2 ^ (width + 1)) :
    n ^^^ 2 ^ width = if n < 2 ^ width then n + 2 ^ width else n - 2 ^ width := by
  have positive := Nat.two_pow_pos width
  have high : (n ^^^ 2 ^ width) / 2 ^ width = n / 2 ^ width ^^^ 2 ^ width / 2 ^ width :=
    Nat.xor_div_two_pow
  have low : (n ^^^ 2 ^ width) % 2 ^ width = n % 2 ^ width ^^^ 2 ^ width % 2 ^ width :=
    Nat.xor_mod_two_pow
  rw [Nat.div_self positive] at high
  rw [Nat.mod_self, Nat.xor_zero] at low
  rw [Nat.pow_succ] at small
  have whole := Nat.div_add_mod (n ^^^ 2 ^ width) (2 ^ width)
  rw [high, low] at whole
  split
  · rw [Nat.div_eq_of_lt ‹_›, Nat.mod_eq_of_lt ‹_›] at whole
    simp at whole
    omega
  · have leading : n / 2 ^ width = 1 := by
      apply Nat.div_eq_of_lt_le <;> omega
    have rest := Nat.div_add_mod n (2 ^ width)
    rw [leading] at whole rest
    simp at whole
    omega

/-- With the sign bit turned, signed numbers are counted from the least of them. -/
theorem turned_sign {width : Nat} (v sign : BitVec (width + 1)) (leading : sign.toNat = 2 ^ width) :
    ((v ^^^ sign).toNat : Int) = v.toInt + (2 ^ width : Nat) := by
  have small := v.isLt
  rw [BitVec.toNat_xor, leading, xor_leading small, BitVec.toInt_eq_toNat_cond]
  rw [Nat.pow_succ] at small ⊢
  generalize 2 ^ width = half at *
  split <;> split <;> omega

@[simp] theorem turned_twice32 (v : UInt32) : v ^^^ signBit32 ^^^ signBit32 = v := by
  rw [UInt32.xor_assoc, UInt32.xor_self, UInt32.xor_zero]

@[simp] theorem turned_twice64 (v : UInt64) : v ^^^ signBit64 ^^^ signBit64 = v := by
  rw [UInt64.xor_assoc, UInt64.xor_self, UInt64.xor_zero]

theorem encodes_int32 : Encodes 4 (fun v => (int32 v).encode) decodeInt32?
    fun a b => a.toInt < b.toInt := by
  apply @Encodes.of_numbering _ 4 (fun v => (v.toUInt32 ^^^ signBit32).toNat)
    (fun n => (UInt32.ofNat n ^^^ signBit32).toInt32)
  · exact fun v => UInt32.toNat_lt _
  · intro v
    rw [UInt32.ofNat_toNat, turned_twice32, Int32.toInt32_toUInt32]
  · intro n small
    rw [UInt32.toUInt32_toInt32, turned_twice32]
    exact UInt32.toNat_ofNat_of_lt' small
  · intro a b
    have first : ((a.toUInt32 ^^^ signBit32).toNat : Int) = _ := turned_sign a.toBitVec _ rfl
    have second : ((b.toUInt32 ^^^ signBit32).toNat : Int) = _ := turned_sign b.toBitVec _ rfl
    change _ ↔ a.toBitVec.toInt < b.toBitVec.toInt
    omega

theorem encodes_int64 : Encodes 8 (fun v => (int64 v).encode) decodeInt64?
    fun a b => a.toInt < b.toInt := by
  apply @Encodes.of_numbering _ 8 (fun v => (v.toUInt64 ^^^ signBit64).toNat)
    (fun n => (UInt64.ofNat n ^^^ signBit64).toInt64)
  · exact fun v => UInt64.toNat_lt _
  · intro v
    rw [UInt64.ofNat_toNat, turned_twice64, Int64.toInt64_toUInt64]
  · intro n small
    rw [UInt64.toUInt64_toInt64, turned_twice64]
    exact UInt64.toNat_ofNat_of_lt' small
  · intro a b
    have first : ((a.toUInt64 ^^^ signBit64).toNat : Int) = _ := turned_sign a.toBitVec _ rfl
    have second : ((b.toUInt64 ^^^ signBit64).toNat : Int) = _ := turned_sign b.toBitVec _ rfl
    change _ ↔ a.toBitVec.toInt < b.toBitVec.toInt
    omega

theorem encodes_uint64 : Encodes 8 (fun v => (uint64 v).encode) decodeUInt64?
    fun a b => a.toNat < b.toNat := by
  apply @Encodes.of_numbering _ 8 (fun v : UInt64 => v.toNat) UInt64.ofNat
  · exact fun v => v.toNat_lt
  · exact fun v => UInt64.ofNat_toNat
  · exact fun n small => UInt64.toNat_ofNat_of_lt' small
  · exact fun a b => Iff.rfl

section Float

open Binary64

variable {bits : UInt64}

theorem toNat_turned : (bits ^^^ signBit64).toNat =
    if isNegative bits then magnitude bits else 2 ^ 63 + magnitude bits := by
  have small := @magnitude_lt bits
  rw [UInt64.toNat_xor, show signBit64.toNat = 2 ^ 63 from rfl, xor_leading bits.toNat_lt, toNat_eq]
  split <;> split <;> omega

theorem toNat_complement : (~~~ bits).toNat =
    if isNegative bits then 2 ^ 63 - 1 - magnitude bits else 2 ^ 64 - 1 - magnitude bits := by
  rw [UInt64.toNat_not, toNat_eq]
  change 2 ^ 64 - 1 - _ = _
  split <;> omega

theorem isNegative_turned : isNegative (bits ^^^ signBit64) = !isNegative bits := by
  have small := @magnitude_lt bits
  rw [Bool.eq_iff_iff, isNegative_iff, toNat_turned]
  cases isNegative bits <;> simp
  omega

theorem isNegative_complement : isNegative (~~~ bits) = !isNegative bits := by
  have small := @magnitude_lt bits
  rw [Bool.eq_iff_iff, isNegative_iff, toNat_complement]
  cases isNegative bits <;> simp <;> omega

theorem and_signBit64 : bits &&& signBit64 = 0 ↔ isNegative bits = false := by
  rw [← Bool.not_eq_true, isNegative_iff, ← UInt64.toNat_inj, UInt64.toNat_and]
  change bits.toNat &&& 2 ^ 63 = 0 ↔ _
  have bound := bits.toNat_lt
  rw [Nat.and_two_pow, Nat.testBit_eq_decide_div_mod_eq]
  simp
  omega

theorem orderedBits_eq : orderedBits bits =
    if isNegative bits then ~~~ bits else bits ^^^ signBit64 := by
  rw [orderedBits]
  cases sign : isNegative bits <;> simp [and_signBit64, sign]

theorem unorderedBits_eq : unorderedBits bits =
    if isNegative bits then bits ^^^ signBit64 else ~~~ bits := by
  rw [unorderedBits]
  cases sign : isNegative bits <;> simp [and_signBit64, sign]

theorem unorderedBits_orderedBits : unorderedBits (orderedBits bits) = bits := by
  rw [orderedBits_eq, unorderedBits_eq]
  cases sign : isNegative bits <;>
    simp [sign, isNegative_turned, isNegative_complement]

theorem orderedBits_unorderedBits : orderedBits (unorderedBits bits) = bits := by
  rw [unorderedBits_eq, orderedBits_eq]
  cases sign : isNegative bits <;>
    simp [sign, isNegative_turned, isNegative_complement]

/-- Negative numbers are counted down from the middle, the others up from there. -/
theorem toNat_orderedBits : (orderedBits bits).toNat =
    if isNegative bits then 2 ^ 63 - 1 - magnitude bits else 2 ^ 63 + magnitude bits := by
  rw [orderedBits_eq]
  cases sign : isNegative bits
  · rw [if_neg Bool.false_ne_true, if_neg Bool.false_ne_true, toNat_turned, sign]
    rfl
  · rw [if_pos rfl, if_pos rfl, toNat_complement, sign]
    rfl

theorem encodes_float : Encodes 8 (fun v => (float v).encode) decodeFloat? Precedes := by
  apply @Encodes.of_numbering _ 8 (fun v => (orderedBits v).toNat)
    (fun n => unorderedBits (UInt64.ofNat n))
  · exact fun v => UInt64.toNat_lt _
  · intro v
    rw [UInt64.ofNat_toNat, unorderedBits_orderedBits]
  · intro n small
    rw [orderedBits_unorderedBits]
    exact UInt64.toNat_ofNat_of_lt' small
  · intro a b
    have first := @magnitude_lt a
    have second := @magnitude_lt b
    rw [toNat_orderedBits, toNat_orderedBits, Precedes]
    cases isNegative a <;> cases isNegative b <;> simp <;> omega

end Float

theorem encodes_bool (a b : Bool) : (bool a).encode < (bool b).encode ↔ a < b := by
  revert a b
  decide

/-- Every type but texts and byte strings is encoded in its own number of bytes, in its order,
and its decoder undoes that for just the byte strings of this length. Of floating-point numbers
all bits are kept and ordered, also those of no number. -/
theorem encodings_keep_order :
    Encodes 4 (fun v => (int32 v).encode) decodeInt32? (fun a b => a.toInt < b.toInt) ∧
      Encodes 8 (fun v => (int64 v).encode) decodeInt64? (fun a b => a.toInt < b.toInt) ∧
      Encodes 8 (fun v => (uint64 v).encode) decodeUInt64? (fun a b => a.toNat < b.toNat) ∧
      Encodes 8 (fun v => (float v).encode) decodeFloat? Binary64.Precedes ∧
      ∀ a b, (bool a).encode < (bool b).encode ↔ a < b :=
  ⟨encodes_int32, encodes_int64, encodes_uint64, encodes_float, encodes_bool⟩

end Value

end DocStore
