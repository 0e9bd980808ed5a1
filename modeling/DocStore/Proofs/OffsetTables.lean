import DocStore.Proofs.Decoders
import Mathlib.Algebra.BigOperators.Group.List.Basic

/-! Pieces of different lengths behind a table of offsets: values, payloads and documents by key
are all stored so. -/
namespace DocStore

namespace Bytes

theorem endOffsets_getElem {start : Nat} {lengths : List Nat} {k : Nat}
    (inside : k < (endOffsets start lengths).length) :
    (endOffsets start lengths)[k] = start + (lengths.take (k + 1)).sum := by
  induction lengths generalizing start k with
  | nil => exact absurd inside (Nat.not_lt_zero _)
  | cons length rest ih =>
    cases k with
    | zero => simp [endOffsets]
    | succ k =>
      simp only [endOffsets, List.getElem_cons_succ, List.take_succ_cons, List.sum_cons]
      rw [ih, Nat.add_assoc]

theorem offsets_getElem {lengths : List Nat} {k : Nat} (inside : k < (offsets lengths).length) :
    (offsets lengths)[k] = (lengths.take k).sum := by
  cases k with
  | zero => rfl
  | succ k => simpa [offsets] using @endOffsets_getElem 0 _ _ (by simpa [offsets] using inside)

end Bytes

/-- The piece between two offsets. -/
theorem flatten_drop_take {α : Type} (pieces : List (List α)) {k : Nat}
    (inside : k < pieces.length) :
    (pieces.flatten.drop ((pieces.map List.length).take k).sum).take pieces[k].length =
      pieces[k] := by
  have split : pieces.flatten =
      (pieces.take k).flatten ++ (pieces[k] ++ (pieces.drop (k + 1)).flatten) := by
    conv => lhs; rw [← List.take_append_drop k pieces, List.drop_eq_getElem_cons inside]
    rw [List.flatten_append, List.flatten_cons]
  rw [← List.map_take, ← List.length_flatten, split, List.drop_left, List.take_left]

/-- Reading a stretch of a list entry by entry. -/
theorem map_range'_getD {α : Type} {items : List α} {fallback : α} {start count : Nat}
    (room : start + count ≤ items.length) :
    (List.range' start count).map (items.getD · fallback) = (items.drop start).take count := by
  refine List.ext_getElem (by simp; omega) fun k here there => ?_
  have inside : start + k < items.length := by
    simp at here
    omega
  simp [List.getD_eq_getElem?_getD, inside]

theorem sum_take_le (lengths : List Nat) (k : Nat) : (lengths.take k).sum ≤ lengths.sum := by
  conv => rhs; rw [← List.take_append_drop k lengths, List.sum_append_nat]
  exact Nat.le_add_right _ _

theorem ascends_sums (lengths : List Nat) :
    Ascends (fun k => (lengths.take k).sum) lengths.length where
  zero := rfl
  step k inside := by
    rw [List.sum_take_succ lengths k inside]
    exact Nat.le_add_right _ _

namespace View

variable {v : View} {lengths : List Nat} {k : Nat}

def entry (v : View) (width k : Nat) : Nat := Bytes.value (v.bytes.sub (k * width) width)

theorem uint32At_entry {last : Nat} (room : v.size = (last + 1) * 4) (inside : k ≤ last) :
    v.uint32At (k * 4) = .ok (v.entry 4 k) :=
  uint32At_eq (by omega)

theorem uint64At_entry {last : Nat} (room : v.size = (last + 1) * 8) (inside : k ≤ last) :
    v.uint64At (k * 8) = .ok (v.entry 8 k) :=
  uint64At_eq (by omega)

section Items

variable {α : Type} {items : List α} (number : α → Nat)

/-- In a table of one number for each item. -/
theorem uint32At_item (same : v.bytes = items.flatMap fun item => Bytes.ofUInt32 (number item))
    (inside : k < items.length) (fits : number items[k] < 2 ^ 32) :
    v.uint32At (k * 4) = .ok (number items[k]) := by
  have has := (same ▸ v.has_bytes).flatMap
    (fun item _ => Bytes.length_ofUInt32 (number item)) inside
  rw [Nat.zero_add] at has
  exact has.uint32At_eq fits

theorem uint64At_item (same : v.bytes = items.flatMap fun item => Bytes.ofUInt64 (number item))
    (inside : k < items.length) (fits : number items[k] < 2 ^ 64) :
    v.uint64At (k * 8) = .ok (number items[k]) := by
  have has := (same ▸ v.has_bytes).flatMap
    (fun item _ => Bytes.length_ofUInt64 (number item)) inside
  rw [Nat.zero_add] at has
  exact has.uint64At_eq fits

end Items

theorem uint32At_offsets (same : v.bytes = (Bytes.offsets lengths).flatMap Bytes.ofUInt32)
    (fits : lengths.sum < 2 ^ 32) (inside : k ≤ lengths.length) :
    v.uint32At (k * 4) = .ok (lengths.take k).sum := by
  have here : k < (Bytes.offsets lengths).length := by simpa [Nat.lt_succ_iff] using inside
  have entry := uint32At_item (fun offset => offset) same here
  rw [Bytes.offsets_getElem here] at entry
  exact entry (Nat.lt_of_le_of_lt (sum_take_le lengths k) fits)

theorem uint64At_offsets (same : v.bytes = (Bytes.offsets lengths).flatMap Bytes.ofUInt64)
    (fits : lengths.sum < 2 ^ 64) (inside : k ≤ lengths.length) :
    v.uint64At (k * 8) = .ok (lengths.take k).sum := by
  have here : k < (Bytes.offsets lengths).length := by simpa [Nat.lt_succ_iff] using inside
  have entry := uint64At_item (fun offset => offset) same here
  rw [Bytes.offsets_getElem here] at entry
  exact entry (Nat.lt_of_le_of_lt (sum_take_le lengths k) fits)

end View

namespace Decoder.Reads

theorem table {bytes : Bytes} {count width : Nat} {what : String}
    (length : bytes.length = count * width) (fits : count * width < sizeLimit) :
    Reads (Decoder.table count width what) bytes fun taken =>
      taken.bytes = bytes ∧ taken.position = 0 := by
  rw [Decoder.table, tableSize, if_pos fits]
  refine (@Reads.pure _ (· = count * width) _ rfl).bind_nil fun a same => ?_
  rw [same, ← length]
  exact Reads.slice bytes

theorem lastOffset {offset : Nat → Nat} {offsetAt : Nat → Except Fault Nat} {last : Nat}
    {what : String} (answers : ∀ entry ≤ last, offsetAt entry = .ok (offset entry))
    (ascends : Ascends offset last) :
    Reads (Decoder.lastOffset what (last + 1) offsetAt) [] (· = offset last) := fun _ _ here =>
  lastOffset_meets answers (fun _ => ⟨here, rfl⟩) (fun broken => (broken ascends).elim)

end Decoder.Reads

end DocStore
