import DocStore.Proofs.Index.Stored
import DocStore.Proofs.Value.Order

/-! Filters on fields of floating-point numbers. The tests compare encodings, which keep the bits
of a number apart, and so the two zeros. Between any other numbers they agree with comparing the
numbers themselves. -/
namespace DocStore

open Binary64

variable {x y : UInt64}

inductive Comparison where
  | equal
  | less (inclusive : Bool)
  | greater (inclusive : Bool)
deriving DecidableEq, Repr

namespace Comparison

def test (value : Bytes) : Comparison → ValueTest
  | equal => .equal value
  | less inclusive => .less value inclusive
  | greater inclusive => .greater value inclusive

def Holds (x y : EReal) : Comparison → Prop
  | equal => x = y
  | less inclusive => if inclusive then x ≤ y else x < y
  | greater inclusive => if inclusive then y ≤ x else y < x

end Comparison

namespace Value

/-- Encodings compare as the numbers that they encode. -/
structure ComparesAsNumbers (x y : UInt64) : Prop where
  lower : (float x).encode < (float y).encode ↔ signed x < signed y
  same : (float x).encode = (float y).encode ↔ signed x = signed y
  tests : ∀ c : Comparison, (c.test (float y).encode).holds (float x).encode = true ↔
    c.Holds (number x) (number y)

theorem encode_float_inj : (float x).encode = (float y).encode ↔ x = y := by
  constructor
  · intro same
    have decoded := encodes_float.decodes x
    rw [same, encodes_float.decodes y] at decoded
    exact (Option.some.inj decoded).symm
  · rintro rfl
    rfl

theorem encode_float_lt : (float x).encode < (float y).encode ↔
    signed x < signed y ∨ x = 0x8000000000000000 ∧ y = 0 :=
  (encodes_float.ordered x y).trans precedes_iff

/-- Encodings are told apart just for the two zeros. -/
theorem encode_float_lt_iff (apart : ¬ OppositeZeros x y) :
    (float x).encode < (float y).encode ↔ signed x < signed y := by
  rw [encode_float_lt, or_iff_left]
  exact fun zeros => apart (.inl zeros)

theorem encode_float_eq_iff (apart : ¬ OppositeZeros x y) :
    (float x).encode = (float y).encode ↔ signed x = signed y := by
  rw [encode_float_inj, signed_eq_iff, or_iff_left apart]

theorem oppositeZeros_comm : OppositeZeros x y ↔ OppositeZeros y x := by
  unfold OppositeZeros
  tauto

/-- A test of an encoding is the comparison of the numbers, unless they are opposite zeros. -/
theorem tests_float (known : ofBits x ≠ nan) (known' : ofBits y ≠ nan)
    (apart : ¬ OppositeZeros x y) (c : Comparison) :
    (c.test (float y).encode).holds (float x).encode = true ↔ c.Holds (number x) (number y) := by
  have below := (encode_float_lt_iff apart).trans (number_lt_iff known known').symm
  have above := (encode_float_lt_iff (mt oppositeZeros_comm.mp apart)).trans
    (number_lt_iff known' known).symm
  have same := (encode_float_eq_iff apart).trans (number_eq_iff known known').symm
  cases c with
  | equal => simpa [Comparison.test, ValueTest.holds, Comparison.Holds] using same
  | less inclusive =>
    cases inclusive with
    | false => simpa [Comparison.test, ValueTest.holds, ValueTest.below, Comparison.Holds] using below
    | true =>
      simpa [Comparison.test, ValueTest.holds, ValueTest.below, Comparison.Holds, ← not_lt]
        using not_congr above
  | greater inclusive =>
    cases inclusive with
    | false => simpa [Comparison.test, ValueTest.holds, ValueTest.below, Comparison.Holds] using above
    | true =>
      simpa [Comparison.test, ValueTest.holds, ValueTest.below, Comparison.Holds, ← not_lt]
        using not_congr below

/-- The two zeros are the only numbers whose encodings do not compare as they do. -/
theorem comparesAsNumbers_iff (known : ofBits x ≠ nan) (known' : ofBits y ≠ nan) :
    ComparesAsNumbers x y ↔ ¬ OppositeZeros x y := by
  constructor
  · intro compares zeros
    have equal := compares.same.mpr (signed_eq_iff.mpr (.inr zeros))
    rw [encode_float_inj] at equal
    subst equal
    exact absurd zeros (by
      rintro (⟨rfl, differs⟩ | ⟨rfl, differs⟩) <;> exact absurd differs (by decide))
  · intro apart
    exact ⟨encode_float_lt_iff apart, encode_float_eq_iff apart, tests_float known known' apart⟩

end Value

namespace Column

variable {floats : List (Nat × UInt64)} {name : String} {indexing : Indexing}

def floatPairs (floats : List (Nat × UInt64)) : List (Nat × Bytes) :=
  floats.map fun entry => (entry.1, (Value.float entry.2).encode)

theorem mem_floatPairs {i : Nat} {value : Bytes} : (i, value) ∈ floatPairs floats ↔
    ∃ x, (i, x) ∈ floats ∧ (Value.float x).encode = value := by
  simp [floatPairs]

/-- Just the documents with a number for which a comparison holds pass the test of it. -/
theorem passes_floatPairs (known : ofBits y ≠ nan)
    (numbers : ∀ entry ∈ floats, ofBits entry.2 ≠ nan ∧ ¬ OppositeZeros entry.2 y)
    (c : Comparison) {i : Nat} :
    (ofPairs name indexing (floatPairs floats)).Passes (c.test (Value.float y).encode) i ↔
      ∃ x, (i, x) ∈ floats ∧ c.Holds (number x) (number y) := by
  have tests : ∀ x, (i, x) ∈ floats → ((c.test (Value.float y).encode).holds
      (Value.float x).encode = true ↔ c.Holds (number x) (number y)) := by
    intro x stored
    obtain ⟨number, apart⟩ := numbers _ stored
    exact Value.tests_float number known apart c
  rw [Passes, (ofPairs_spec name indexing (floatPairs floats)).1]
  constructor
  · rintro ⟨value, paired, holds⟩
    obtain ⟨x, stored, rfl⟩ := mem_floatPairs.mp paired
    exact ⟨x, stored, (tests x stored).mp holds⟩
  · rintro ⟨x, stored, compares⟩
    exact ⟨_, mem_floatPairs.mpr ⟨x, stored, rfl⟩, (tests x stored).mpr compares⟩

/-- Encodings compare as their numbers, for any two numbers but the two zeros. So filters on a
stored field of numbers, in each form of dictionary and of postings, agree with comparing the
numbers, as long as no stored zero meets the other one. -/
theorem stored_numbers_compare (known : ofBits x ≠ nan) (known' : ofBits y ≠ nan) :
    (Value.ComparesAsNumbers x y ↔ ¬ OppositeZeros x y) ∧
    ∀ (floats : List (Nat × UInt64)) (documents : Nat) (kind : DictionaryKind)
      (encoding : PostingsEncoding) (name : String) (indexing : Indexing),
      (∀ entry ∈ floats, entry.1 < documents ∧ ofBits entry.2 ≠ nan ∧ ¬ OppositeZeros entry.2 y) →
      (ofPairs name indexing (floatPairs floats)).Storable documents kind encoding →
      ∃ bytes, (ofPairs name indexing (floatPairs floats)).indexForm documents kind
          (some encoding) = .ok bytes ∧
        ∀ (v : View) (tail : Bytes), v.rest = bytes ++ tail →
          ∃ index w, (decodeFilter name documents).runOn v = (.ok index, w) ∧ w.rest = tail ∧
            ∀ dest : ArraySet, dest.Over documents → ∀ c : Comparison, ∃ found united,
              index.unite dest (c.test (Value.float y).encode) = .ok (found, united) ∧
                united.size = dest.size ∧
                (∀ i, i ∈ united ↔ i ∈ dest ∨
                  ∃ x, (i, x) ∈ floats ∧ c.Holds (number x) (number y)) ∧
                (found = true ↔ ∃ i x, (i, x) ∈ floats ∧ c.Holds (number x) (number y)) := by
  refine ⟨Value.comparesAsNumbers_iff known known', ?_⟩
  intro floats documents kind encoding name indexing entries storable
  obtain ⟨postings, values⟩ := ofPairs_spec name indexing (floatPairs floats)
  have existing : ∀ pair ∈ floatPairs floats, pair.1 < documents := by
    rintro ⟨i, value⟩ paired
    obtain ⟨x, stored, rfl⟩ := mem_floatPairs.mp paired
    exact (entries _ stored).1
  have content := @content_ofPairs _ documents name indexing existing storable.small
  have wide : ∀ value ∈ (ofPairs name indexing (floatPairs floats)).values.values,
      value.length = 8 := by
    intro value inside
    obtain ⟨i, posted⟩ := (content.values value).mp inside
    rw [postings] at posted
    obtain ⟨x, _, rfl⟩ := mem_floatPairs.mp posted
    exact Bytes.length_bigEndian _ _
  obtain ⟨bytes, formed, reads⟩ := indexForm_reads content
    (fun _ v first w second => (wide v first).trans (wide w second).symm) storable name
  refine ⟨bytes, formed, ?_⟩
  intro v tail here
  obtain ⟨index, w, ran, left, files⟩ := reads.run_eq here
  refine ⟨index, w, ran, left, ?_⟩
  intro dest sized c
  obtain ⟨⟨found, united⟩, answered, added⟩ :=
    files.answers.unite (c.test (Value.float y).encode) dest sized
  rw [carries_carriers content] at added
  have added := added.congr fun i =>
    passes_floatPairs known' (fun entry stored => (entries entry stored).2) c
  exact ⟨found, united, answered, added.size, added.members, added.found trivial⟩

def measured : List (Nat × UInt64) :=
  [(0, 0x3FE0000000000000), (1, 0x8000000000000000), (2, 0x7FF0000000000000),
    (0, 0xC000000000000000)]

/-- The documents with a number of at most minus zero. -/
theorem stored_numbers_compare_measured : ∃ bytes index w united,
    (ofPairs "m" ⟨.full, .varied⟩ (floatPairs measured)).indexForm 3 .fixed (some .list)
        = .ok bytes ∧
      (decodeFilter "m" 3).runOn (View.ofBytes bytes) = (.ok index, w) ∧
      index.unite (.empty 3) ((Comparison.less true).test (Value.float 0x8000000000000000).encode)
        = .ok (true, united) ∧
      (∀ i, i ∈ united ↔ ∃ x, (i, x) ∈ measured ∧ number x ≤ number 0) ∧ 1 ∈ united ∧
      Value.ComparesAsNumbers 0x3FE0000000000000 0x8000000000000000 := by
  obtain ⟨compares, stores⟩ := @stored_numbers_compare 0x3FE0000000000000 0x8000000000000000
    (by decide) (by decide)
  obtain ⟨bytes, formed, reads⟩ := stores measured 3 .fixed .list "m" ⟨.full, .varied⟩
    (by decide) ⟨by decide, by decide +kernel, fun b collected => by
      cases collected
      decide +kernel⟩
  obtain ⟨index, w, ran, left, unites⟩ := reads (View.ofBytes bytes) []
    (by rw [View.rest_eq_bytes rfl, View.bytes_ofBytes, List.append_nil])
  obtain ⟨found, united, answered, _, members, some⟩ := unites (.empty 3)
    ⟨rfl, ArraySet.trimmed_empty 3⟩ (.less true)
  have zero : (1, 0x8000000000000000) ∈ measured := by decide
  have meets : (Comparison.less true).Holds (number 0x8000000000000000)
      (number 0x8000000000000000) := le_refl _
  obtain rfl : found = true := some.mpr ⟨1, _, zero, meets⟩
  refine ⟨bytes, index, w, united, formed, ran, answered, ?_, ?_, ?_⟩
  · intro i
    rw [members, or_iff_right ArraySet.not_mem_empty, ← number_zeros]
    rfl
  · exact (members 1).mpr (.inr ⟨_, zero, meets⟩)
  · exact compares.mpr (by decide)

end Column

namespace Value

/-- Minus zero is encoded below zero, and a test for zero does not find it. -/
theorem zeros_encoded_apart :
    ofBits 0x8000000000000000 ≠ nan ∧ ofBits 0 ≠ nan ∧ signed 0x8000000000000000 = signed 0 ∧
      number 0x8000000000000000 = number 0 ∧
      (float 0x8000000000000000).encode < (float 0).encode ∧
      (Comparison.equal.test (float 0).encode).holds (float 0x8000000000000000).encode = false ∧
      ¬ ComparesAsNumbers 0x8000000000000000 0 := by
  have apart : (float 0x8000000000000000).encode < (float 0).encode := by decide
  refine ⟨by decide, by decide, by decide, number_zeros, apart, by decide, ?_⟩
  intro compares
  exact absurd (compares.lower.mp apart) (by decide)

end Value

end DocStore
