import DocStore.View
import DocStore.Proofs.Outcomes

/-! A view is its byte string with a cursor. Every access is restated on `View.bytes`, and every
read at the cursor on `View.rest`, so that no later proof sees windows of shared arrays. -/
namespace DocStore

namespace Bytes

def sub (bytes : Bytes) (offset count : Nat) : Bytes := (bytes.drop offset).take count

@[simp] theorem length_sub {bytes : Bytes} {offset count : Nat}
    (inside : offset + count ≤ bytes.length) : (bytes.sub offset count).length = count := by
  simp only [sub, List.length_take, List.length_drop]
  omega

theorem sub_add {bytes : Bytes} {offset count more : Nat} :
    bytes.sub offset (count + more) = bytes.sub offset count ++ bytes.sub (offset + count) more := by
  rw [sub, List.take_add, List.drop_drop, sub, sub]

theorem length_flatMap_width {α : Type} {items : List α} {f : α → Bytes} {width : Nat}
    (widths : ∀ item ∈ items, (f item).length = width) :
    (items.flatMap f).length = items.length * width := by
  rw [List.length_flatMap, List.map_congr_left widths, List.map_const', List.sum_replicate_nat]

/-- Writing and reading a number keeps its low bytes. -/
theorem value_littleEndian (width n : Nat) : value (littleEndian width n) = n % 256 ^ width := by
  induction width generalizing n with
  | zero => simp [littleEndian, value, Nat.mod_one]
  | succ width ih =>
    simp only [littleEndian, value, ih]
    rw [show (UInt8.ofNat n).toNat = n % 256 from UInt8.toNat_ofNat', Nat.pow_succ',
      Nat.mod_mul]

/-- Reading and writing a number gives its bytes back. -/
theorem littleEndian_value (bytes : Bytes) : littleEndian bytes.length (value bytes) = bytes := by
  induction bytes with
  | nil => rfl
  | cons byte rest ih =>
    have small := byte.toNat_lt
    have low : UInt8.ofNat (byte.toNat + 256 * value rest) = byte := by
      apply UInt8.toNat.inj
      rw [UInt8.toNat_ofNat']
      omega
    have high : (byte.toNat + 256 * value rest) / 256 = value rest := by omega
    simp only [value, List.length_cons, littleEndian, low, high, ih]

theorem ofUInt32_value {bytes : Bytes} (width : bytes.length = 4) :
    ofUInt32 (value bytes) = bytes := by
  rw [ofUInt32, ← width, littleEndian_value]

theorem value_lt (bytes : Bytes) : value bytes < 256 ^ bytes.length := by
  induction bytes with
  | nil => simp [value]
  | cons byte rest ih =>
    have small : byte.toNat < 256 := byte.toNat_lt
    simp only [value, List.length_cons, Nat.pow_succ]
    omega

/-- Bit `i` of a number is bit `i % 8` of its byte `i / 8`. -/
theorem testBit_value (bytes : Bytes) (i : Nat) :
    (value bytes).testBit i = (bytes.getD (i / 8) 0).toNat.testBit (i % 8) := by
  induction bytes generalizing i with
  | nil => simp [value]
  | cons byte rest ih =>
    rw [value, Nat.add_comm, show 256 = 2 ^ 8 from rfl, Nat.testBit_two_pow_mul_add _ byte.toNat_lt]
    split
    · rename_i low
      rw [Nat.div_eq_of_lt low, Nat.mod_eq_of_lt low, List.getD_cons_zero]
    · rw [ih, show i / 8 = (i - 8) / 8 + 1 by omega, List.getD_cons_succ,
        show (i - 8) % 8 = i % 8 by omega]

theorem value_ofUInt32 {n : Nat} (fits : n < 2 ^ 32) : value (ofUInt32 n) = n := by
  rw [ofUInt32, value_littleEndian]
  exact Nat.mod_eq_of_lt (by simpa using fits)

theorem value_ofUInt64 {n : Nat} (fits : n < 2 ^ 64) : value (ofUInt64 n) = n := by
  rw [ofUInt64, value_littleEndian]
  exact Nat.mod_eq_of_lt (by simpa using fits)

theorem value_take_lt (bytes : Bytes) : value (bytes.take 4) < 2 ^ 32 :=
  Nat.lt_of_lt_of_le (value_lt _) (Nat.pow_le_pow_right (by decide) (List.length_take_le 4 _))

theorem value_sub_lt (bytes : Bytes) (offset count : Nat) :
    value (bytes.sub offset count) < 256 ^ count :=
  Nat.lt_of_lt_of_le (value_lt _)
    (Nat.pow_le_pow_right (by decide) (List.length_take_le _ _))

end Bytes

namespace View

variable {v w : View} {offset count : Nat}

theorem window_eq (inside : offset + count ≤ v.size) :
    v.window offset count = v.bytes.sub offset count := by
  have := v.window_le
  simp only [window, bytes, Bytes.sub, Array.toList_extract, List.extract_eq_take_drop,
    List.drop_take, List.drop_drop, List.take_take]
  congr 1
  omega

theorem byteAt_eq (inside : offset < v.bytes.length) : v.byteAt offset = .ok v.bytes[offset] := by
  have bound := inside
  rw [length_bytes] at bound
  simp [byteAt, bound, bytes, window]

theorem bytesAt_eq (inside : offset + count ≤ v.size) :
    v.bytesAt offset count = .ok (v.bytes.sub offset count) := by
  rw [bytesAt, if_pos inside, window_eq inside]

theorem uint32At_eq (inside : offset + 4 ≤ v.size) :
    v.uint32At offset = .ok (Bytes.value (v.bytes.sub offset 4)) := by
  rw [uint32At, bytesAt_eq inside]
  rfl

theorem uint64At_eq (inside : offset + 8 ≤ v.size) :
    v.uint64At offset = .ok (Bytes.value (v.bytes.sub offset 8)) := by
  rw [uint64At, bytesAt_eq inside]
  rfl

theorem byteAt_exists (inside : offset < v.size) : ∃ byte, v.byteAt offset = .ok byte :=
  ⟨_, byteAt_eq (by simpa using inside)⟩

theorem uint32At_exists (inside : offset + 4 ≤ v.size) :
    ∃ n, v.uint32At offset = .ok n ∧ n < 2 ^ 32 :=
  ⟨_, uint32At_eq inside, by simpa using Bytes.value_sub_lt v.bytes offset 4⟩

theorem uint32At_lt {n : Nat} (read : v.uint32At offset = .ok n) : n < 2 ^ 32 := by
  by_cases inside : offset + 4 ≤ v.size
  · obtain ⟨found, same, small⟩ := uint32At_exists inside
    rw [same] at read
    cases read
    exact small
  · rw [uint32At, bytesAt, if_neg inside] at read
    contradiction

structure Has (v : View) (offset : Nat) (bytes : Bytes) : Prop where
  inside : offset + bytes.length ≤ v.size
  same : v.bytes.sub offset bytes.length = bytes

theorem has_bytes (v : View) : v.Has 0 v.bytes where
  inside := by simp
  same := by rw [Bytes.sub, List.drop_zero, List.take_length]

theorem Has.append {first second : Bytes} (has : v.Has offset (first ++ second)) :
    v.Has offset first ∧ v.Has (offset + first.length) second := by
  obtain ⟨inside, same⟩ := has
  rw [List.length_append] at inside same
  rw [Bytes.sub_add] at same
  have bound := v.length_bytes
  have front : (v.bytes.sub offset first.length).length = first.length :=
    Bytes.length_sub (by omega)
  obtain ⟨before, after⟩ := List.append_inj same front
  exact ⟨⟨by omega, before⟩, ⟨by omega, after⟩⟩

theorem Has.flatMap {α : Type} {items : List α} {f : α → Bytes} {width entry : Nat}
    (has : v.Has offset (items.flatMap f)) (widths : ∀ item ∈ items, (f item).length = width)
    (inside : entry < items.length) : v.Has (offset + entry * width) (f items[entry]) := by
  induction items generalizing offset entry with
  | nil => exact absurd inside (Nat.not_lt_zero _)
  | cons item rest ih =>
    obtain ⟨front, back⟩ := Has.append (List.flatMap_cons ▸ has)
    cases entry with
    | zero => simpa using front
    | succ entry =>
      rw [widths item List.mem_cons_self] at back
      rw [Nat.succ_mul, Nat.add_comm (entry * width), ← Nat.add_assoc]
      exact ih back (fun item later => widths item (List.mem_cons_of_mem _ later))
        (by simpa using inside)

theorem Has.bytesAt_eq {bytes : Bytes} (has : v.Has offset bytes) :
    v.bytesAt offset bytes.length = .ok bytes := by
  rw [View.bytesAt_eq has.inside, has.same]

theorem Has.byteAt_eq {byte : UInt8} {rest : Bytes} (has : v.Has offset (byte :: rest)) :
    v.byteAt offset = .ok byte := by
  obtain ⟨front, -⟩ := @Has.append v offset [byte] rest has
  have bound : offset < v.bytes.length := by
    rw [View.length_bytes]
    exact front.inside
  have same := front.same
  rw [Bytes.sub, List.length_singleton, List.drop_eq_getElem_cons bound, List.take_succ_cons,
    List.take_zero] at same
  rw [View.byteAt_eq bound, (List.cons.inj same).1]

theorem Has.tail {byte : UInt8} {rest : Bytes} (has : v.Has offset (byte :: rest)) :
    v.Has (offset + 1) rest :=
  (@Has.append v offset [byte] rest has).2

theorem Has.byteAt_getElem {bytes : Bytes} {k : Nat} (has : v.Has offset bytes)
    (inside : k < bytes.length) : v.byteAt (offset + k) = .ok bytes[k] := by
  rw [← List.take_append_drop k bytes, List.drop_eq_getElem_cons inside] at has
  have back := has.append.2
  rw [List.length_take, Nat.min_eq_left (Nat.le_of_lt inside)] at back
  exact back.byteAt_eq

theorem Has.uint32At_eq {n : Nat} (has : v.Has offset (Bytes.ofUInt32 n)) (fits : n < 2 ^ 32) :
    v.uint32At offset = .ok n := by
  obtain ⟨inside, same⟩ := has
  rw [Bytes.length_ofUInt32] at inside same
  rw [View.uint32At_eq inside, same, Bytes.value_ofUInt32 fits]

theorem Has.uint64At_eq {n : Nat} (has : v.Has offset (Bytes.ofUInt64 n)) (fits : n < 2 ^ 64) :
    v.uint64At offset = .ok n := by
  obtain ⟨inside, same⟩ := has
  rw [Bytes.length_ofUInt64] at inside same
  rw [View.uint64At_eq inside, same, Bytes.value_ofUInt64 fits]

theorem slice?_eq_some (taken : v.slice? offset count = some w) :
    offset + count ≤ v.size ∧ w.size = count ∧ w.position = 0 ∧ w.start = v.start + offset ∧
      w.bytes = v.bytes.sub offset count := by
  unfold slice? at taken
  split at taken
  · rename_i inside
    obtain rfl := Option.some.inj taken
    refine ⟨inside, rfl, rfl, rfl, ?_⟩
    rw [← window_eq inside]
    simp [bytes, window]
  · contradiction

theorem slice?_exists (inside : offset + count ≤ v.size) : ∃ w, v.slice? offset count = some w := by
  simp [slice?, inside]

def rest (v : View) : Bytes := v.bytes.drop v.position

@[simp] theorem length_rest (v : View) : v.rest.length = v.remaining := by
  simp [rest, remaining]

theorem rest_eq_bytes (atStart : v.position = 0) : v.rest = v.bytes := by
  simp [rest, atStart]

/-- The bytes of a view on a byte string, with nothing after them. -/
theorem rest_ofBytes (bytes : Bytes) : (ofBytes bytes).rest = bytes ++ [] := by
  rw [rest_eq_bytes rfl, bytes_ofBytes, List.append_nil]

theorem skip?_eq_some (moved : v.skip? count = some w) :
    count ≤ v.rest.length ∧ w.rest = v.rest.drop count ∧ w.size = v.size ∧
      w.position = v.position + count := by
  unfold skip? at moved
  split at moved
  · rename_i enough
    obtain rfl := Option.some.inj moved
    refine ⟨?_, ?_, rfl, rfl⟩
    · rw [length_rest, remaining]
      omega
    · simp [rest, bytes, window]
  · contradiction

theorem skip?_exists (enough : count ≤ v.rest.length) : ∃ w, v.skip? count = some w := by
  rw [length_rest, remaining] at enough
  have := v.position_le
  have inside : v.position + count ≤ v.size := by omega
  simp [skip?, inside]

theorem window_position (enough : count ≤ v.rest.length) :
    v.window v.position count = v.rest.take count := by
  rw [length_rest, remaining] at enough
  have := v.position_le
  rw [window_eq (by omega), Bytes.sub, rest]

end View

end DocStore
