import DocStore.Proofs.Dictionary.Holding
import DocStore.Proofs.OffsetTables

/-! Flat dictionaries. From arbitrary bytes their values can be read; from written ones they are
the values that were written. -/
namespace DocStore

namespace Dictionary

variable {d : Dictionary} {values : List Bytes} {value : Bytes} {skipEqual : Bool}

theorem search_flat (flat : d.kind ≠ .trie) (start stop : Nat) :
    d.search value skipEqual start stop = partitionPoint
      (fun rank => return ValueTest.below skipEqual (← d.get rank) value) start stop := by
  cases d with
  | fixed table => rfl
  | varied table => rfl
  | trie tree => exact absurd rfl flat

theorem rank?_flat (flat : d.kind ≠ .trie) {rank : Nat}
    (found : d.search value false 0 d.size = .ok rank) : d.rank? value =
      if rank < d.size then return if (← d.get rank) = value then some rank else none
      else return none := by
  cases d with
  | fixed table => simp only [Dictionary.rank?, found, ok_bind]
  | varied table => simp only [Dictionary.rank?, found, ok_bind]
  | trie tree => exact absurd rfl flat

/-- What is left of a flat dictionary when its order is not known. -/
theorem safe_of_get (flat : d.kind ≠ .trie) (room : d.size < sizeLimit)
    (get : ∀ rank < d.size, ∃ value, d.get rank = .ok value) : d.Safe := by
  have searched : ∀ value skipEqual start stop, stop ≤ d.size → ∃ rank,
      d.search value skipEqual start stop = .ok rank ∧ start ≤ rank ∧ rank ≤ max start stop := by
    intro value skipEqual start stop inside
    rw [search_flat flat]
    refine partitionPoint_exists (Nat.lt_of_le_of_lt inside room) fun rank _ upper => ?_
    obtain ⟨element, read⟩ := get rank (by omega)
    exact ⟨_, by rw [read]; rfl⟩
  refine ⟨room, get, searched, fun value => ?_⟩
  obtain ⟨rank, found, _, _⟩ := searched value false 0 d.size (Nat.le_refl _)
  rw [rank?_flat flat found]
  by_cases inside : rank < d.size
  · obtain ⟨element, read⟩ := get rank inside
    rw [if_pos inside, read]
    refine ⟨_, rfl, fun found listed => ?_⟩
    split at listed
    · cases listed
      exact inside
    · contradiction
  · rw [if_neg inside]
    exact ⟨none, rfl, fun _ listed => by contradiction⟩

/-- A flat dictionary that reads an ascending list is that list under searches. -/
theorem holds_of_get (flat : d.kind ≠ .trie) (ascending : values.Pairwise (· < ·))
    (size : d.size = values.length) (room : values.length < sizeLimit)
    (get : ∀ (rank : Nat) (inside : rank < values.length), d.get rank = .ok values[rank]) :
    d.Holds values := by
  have searched : ∀ value skipEqual start stop, stop ≤ values.length →
      d.search value skipEqual start stop =
        .ok (clamp start stop (values.countP (ValueTest.below skipEqual · value))) := by
    intro value skipEqual start stop inside
    rw [search_flat flat]
    refine partitionPoint_eq (Nat.lt_of_le_of_lt inside room) fun rank _ upper => ?_
    rw [get rank (by omega), ok_bind]
    exact congrArg Except.ok
      (passes_iff_lt_countP ascending (fun a b => ValueTest.below_of_lt) (by omega))
  refine ⟨ascending, size, room, get, searched, fun value => ?_⟩
  have bound := List.countP_le_length (p := (ValueTest.below false · value)) (l := values)
  have point : clamp 0 d.size (values.countP (ValueTest.below false · value)) =
      values.countP (· < value) := by
    rw [clamp, size, Nat.zero_max, Nat.max_eq_left (Nat.zero_le _), Nat.min_eq_left bound]
    rfl
  rw [rank?_flat flat (searched value false 0 d.size (Nat.le_of_eq size)), point, size]
  by_cases member : value ∈ values
  · obtain ⟨rank, inside, rfl⟩ := List.getElem_of_mem member
    have known := idxOf?_getElem ascending inside
    have counted := (idxOf?_eq_of_ascending ascending values[rank]).symm.trans known
    rw [if_pos (by simp)] at counted
    rw [known, Option.some.inj counted, if_pos inside, get rank inside]
    exact congrArg Except.ok (if_pos rfl)
  · rw [List.idxOf?_eq_none_iff.mpr member]
    split
    · rename_i inside
      rw [get _ inside]
      exact congrArg Except.ok (if_neg fun same : values[_] = value =>
        member (same ▸ List.getElem_mem inside))
    · rfl

end Dictionary

theorem entry_within {rank size width : Nat} (inside : rank < size) :
    rank * width + width ≤ size * width := by
  rw [← Nat.succ_mul]
  exact Nat.mul_le_mul_right width inside

namespace FixedTable

variable {values : List Bytes} {width : Nat}

theorem decode_meets {v : View} {post : FixedTable → View → Prop}
    {refused : FormatError → View → Prop}
    (read : ∀ t w, (Dictionary.fixed t).Safe → post t w) (refusal : ∀ e w, refused e w) :
    Meets decode v post refused := by
  unfold decode
  rw [Meets.bind]
  refine Decoder.uint32_meets (fun v₁ _ _ => ?_) (fun _ e => refusal e _)
  rw [Meets.bind]
  refine Decoder.uint32_meets (fun v₂ _ _ => ?_) (fun _ e => refusal e _)
  rw [Meets.bind]
  refine Decoder.tableSize_meets (fun _ => ?_) (fun _ e => refusal e _)
  rw [Meets.bind]
  refine Decoder.slice_meets (fun elements v₄ _ _ room _ _ => ?_) (fun _ e => refusal e _)
  refine read _ v₄ (Dictionary.safe_of_get (by simp [Dictionary.kind])
    (lt_sizeLimit (Bytes.value_take_lt _)) fun rank inside => ?_)
  have within := @entry_within rank _ (Bytes.value (v₁.rest.take 4)) inside
  exact ⟨_, View.bytesAt_eq (room ▸ within)⟩

theorem decode_reads (ascending : values.Pairwise (· < ·)) (widths : ∀ value ∈ values, value.length = width)
    (size : values.length < 2 ^ 32) (fits : width < 2 ^ 32) :
    Decoder.Reads decode
      (Bytes.ofUInt32 values.length ++ Bytes.ofUInt32 width ++ values.flatten) fun t =>
        (Dictionary.fixed t).Holds values := by
  have length : values.flatten.length = values.length * width := by
    rw [← List.flatMap_id]
    exact Bytes.length_flatMap_width widths
  have room : values.length * width < sizeLimit :=
    Nat.lt_of_le_of_lt (Nat.mul_le_mul (Nat.le_pred_of_lt size) (Nat.le_pred_of_lt fits)) (by decide)
  unfold decode
  rw [List.append_assoc]
  refine (Decoder.Reads.uint32 size).bind fun _ same => ?_
  subst same
  refine (Decoder.Reads.uint32 fits).bind fun _ same => ?_
  subst same
  rw [Decoder.tableSize, if_pos room]
  refine (Decoder.Reads.pure rfl).bind_nil fun _ same => ?_
  rw [← same, ← length]
  refine (Decoder.Reads.slice _).bind_last fun elements stored => Decoder.Reads.pure ?_
  refine Dictionary.holds_of_get (by simp [Dictionary.kind]) ascending rfl (lt_sizeLimit size)
    fun rank inside => ?_
  have whole : elements.Has 0 (values.flatMap id) := by
    rw [List.flatMap_id, ← stored.1]
    exact elements.has_bytes
  have read := (whole.flatMap widths inside).bytesAt_eq
  rwa [Nat.zero_add, id, widths _ (List.getElem_mem inside)] at read

end FixedTable

namespace VariableTable

variable {values : List Bytes}

theorem decode_meets {v : View} {post : VariableTable → View → Prop}
    {refused : FormatError → View → Prop}
    (read : ∀ t w, (Dictionary.varied t).Safe → post t w) (refusal : ∀ e w, refused e w) :
    Meets decode v post refused := by
  unfold decode
  rw [Meets.bind]
  refine Decoder.uint32_meets (fun v₁ _ _ => ?_) (fun _ e => refusal e _)
  rw [Decoder.offsetCount_eq (Bytes.value_take_lt _), pure_bind, Meets.bind]
  refine Decoder.table_meets (fun offsets v₂ _ _ room _ _ => ?_) (fun _ e => refusal e _)
  rw [Meets.bind]
  refine Decoder.lastOffset_meets (fun entry inside => View.uint32At_entry room inside)
    (fun ascends => ?_) (fun _ e => refusal e _)
  rw [Meets.bind]
  refine Decoder.slice_meets (fun elements v₄ _ _ total _ _ => ?_) (fun _ e => refusal e _)
  refine read _ v₄ (Dictionary.safe_of_get (by simp [Dictionary.kind])
    (lt_sizeLimit (Bytes.value_take_lt _)) fun rank inside => ?_)
  have next : rank + 1 ≤ Bytes.value (v.rest.take 4) := inside
  have start := ascends.step rank next
  have stop := ascends.mono next (Nat.le_refl _)
  simp only [Dictionary.get, get, View.uint32At_entry room (Nat.le_of_lt next),
    View.uint32At_entry room next, subSizes_of_le start, ok_bind]
  exact ⟨_, View.bytesAt_eq (by omega)⟩

theorem decode_reads (ascending : values.Pairwise (· < ·)) (size : values.length < 2 ^ 32)
    (fits : values.flatten.length < 2 ^ 32) :
    Decoder.Reads decode (Bytes.ofUInt32 values.length ++
      (Bytes.offsets (values.map List.length)).flatMap Bytes.ofUInt32 ++ values.flatten) fun t =>
        (Dictionary.varied t).Holds values := by
  have sum : (values.map List.length).sum = values.flatten.length := List.length_flatten.symm
  have count : (values.map List.length).length = values.length := List.length_map _
  have table : ((Bytes.offsets (values.map List.length)).flatMap Bytes.ofUInt32).length =
      (values.length + 1) * 4 := by
    rw [Bytes.length_flatMap_width fun _ _ => Bytes.length_ofUInt32 _, Bytes.length_offsets, count]
  unfold decode
  rw [List.append_assoc]
  refine (Decoder.Reads.uint32 size).bind fun _ same => ?_
  subst same
  rw [Decoder.offsetCount_eq size, pure_bind]
  refine (Decoder.Reads.table table (by unfold sizeLimit; omega)).bind fun offsets stored => ?_
  have answers : ∀ entry ≤ values.length, offsets.uint32At (entry * 4) =
      .ok ((values.map List.length).take entry).sum := fun entry inside =>
    View.uint32At_offsets stored.1 (sum ▸ fits) (count ▸ inside)
  refine (Decoder.Reads.lastOffset answers (count ▸ ascends_sums _)).bind_nil fun _ same => ?_
  rw [same, List.take_of_length_le (Nat.le_of_eq count), sum]
  refine (Decoder.Reads.slice _).bind_last fun elements stored => Decoder.Reads.pure ?_
  refine Dictionary.holds_of_get (by simp [Dictionary.kind]) ascending rfl (lt_sizeLimit size)
    fun rank inside => ?_
  have here : rank < (values.map List.length).length := count.symm ▸ inside
  have next := List.sum_take_succ _ _ here
  have bound := sum_take_le (values.map List.length) (rank + 1)
  have size : elements.size = values.flatten.length := by rw [← View.length_bytes, stored.1]
  rw [List.getElem_map] at next
  simp only [Dictionary.get, get, answers rank (Nat.le_of_lt inside), answers (rank + 1) inside,
    next, subSizes_of_le (Nat.le_add_right _ _), ok_bind]
  rw [Nat.add_sub_cancel_left, View.bytesAt_eq (by omega), stored.1, Bytes.sub,
    flatten_drop_take values inside]

end VariableTable

end DocStore
