import DocStore.Proofs.Format.Payloads

/-! The stored form of payloads is their only one: what is written is read back, and what can be
read is what would be written. Offsets that start at zero and never go down cut a byte string into
pieces, and are in turn the offsets of these pieces. -/
namespace DocStore

namespace Bytes

def cuts (bytes : Bytes) (offset : Nat → Nat) (last : Nat) : List Bytes :=
  (List.range last).map fun k => bytes.sub (offset k) (offset (k + 1) - offset k)

variable {bytes : Bytes} {offset : Nat → Nat} {last : Nat}

@[simp] theorem length_cuts : (bytes.cuts offset last).length = last := by
  simp [cuts]

theorem getElem_cuts {k : Nat} (inside : k < (bytes.cuts offset last).length) :
    (bytes.cuts offset last)[k] = bytes.sub (offset k) (offset (k + 1) - offset k) := by
  simp [cuts]

theorem cuts_succ : bytes.cuts offset (last + 1) =
    bytes.cuts offset last ++ [bytes.sub (offset last) (offset (last + 1) - offset last)] := by
  rw [cuts, List.range_succ, List.map_append, List.map_singleton, ← cuts]

/-- The pieces put together again. -/
theorem flatten_cuts (ascends : Ascends offset last) :
    (bytes.cuts offset last).flatten = bytes.take (offset last) := by
  induction last with
  | zero => rw [ascends.zero]; rfl
  | succ last ih =>
    have before : Ascends offset last :=
      ⟨ascends.zero, fun entry inside => ascends.step entry (Nat.lt_succ_of_lt inside)⟩
    have step := ascends.step last (Nat.lt_succ_self last)
    rw [cuts_succ, List.flatten_append, ih before, List.flatten_singleton, sub, ← List.take_add,
      Nat.add_sub_cancel' step]

/-- The pieces are as long as their offsets are apart. -/
theorem sum_lengths_cuts (ascends : Ascends offset last) (room : offset last ≤ bytes.length)
    {k : Nat} (inside : k ≤ last) :
    (((bytes.cuts offset last).map List.length).take k).sum = offset k := by
  induction k with
  | zero => rw [ascends.zero]; rfl
  | succ k ih =>
    have step := ascends.step k inside
    have bound := ascends.mono inside (Nat.le_refl last)
    rw [List.sum_take_succ _ _ (by simpa using Nat.lt_of_succ_le inside), ih (Nat.le_of_succ_le inside),
      List.getElem_map, getElem_cuts, length_sub (by omega), Nat.add_sub_cancel' step]

/-- The offsets are those of the pieces. -/
theorem offsets_cuts (ascends : Ascends offset last) (room : offset last ≤ bytes.length) :
    offsets ((bytes.cuts offset last).map List.length) = (List.range (last + 1)).map offset := by
  refine List.ext_getElem (by simp) fun k here there => ?_
  have inside : k ≤ last := by simpa [Nat.lt_succ_iff] using there
  rw [offsets_getElem here, sum_lengths_cuts ascends room inside, List.getElem_map,
    List.getElem_range]

/-- Entries of one width, put together again. -/
theorem flatMap_sub {count width : Nat} (length : bytes.length = count * width) :
    (List.range count).flatMap (fun k => bytes.sub (k * width) width) = bytes := by
  have ascends : Ascends (· * width) count :=
    ⟨Nat.zero_mul width, fun entry _ => Nat.mul_le_mul_right width (Nat.le_succ entry)⟩
  have joined := @flatten_cuts bytes _ _ ascends
  simp only [cuts, Nat.succ_mul, Nat.add_sub_cancel_left] at joined
  rw [List.flatMap_def, joined, List.take_of_length_le (Nat.le_of_eq length)]

theorem ofUInt64_value (width : bytes.length = 8) : ofUInt64 (value bytes) = bytes := by
  rw [ofUInt64, ← width, littleEndian_value]

end Bytes

/-- A table of 64-bit numbers is what its entries are written as. -/
theorem View.flatMap_entry {v : View} {count : Nat} (room : v.size = count * 8) :
    ((List.range count).map (v.entry 8)).flatMap Bytes.ofUInt64 = v.bytes := by
  have length : v.bytes.length = count * 8 := by rw [View.length_bytes, room]
  have written : ∀ k ∈ List.range count,
      Bytes.ofUInt64 (v.entry 8 k) = v.bytes.sub (k * 8) 8 := fun k inside => by
    have inside := List.mem_range.mp inside
    rw [View.entry, Bytes.ofUInt64_value (Bytes.length_sub (by omega))]
  rw [List.flatMap_map, List.flatMap_def, List.map_congr_left written, ← List.flatMap_def,
    Bytes.flatMap_sub length]

namespace Payloads

/-- Behind the last document there is no payload. -/
theorem get?_past {p : Payloads} {document : Nat} (past : p.documents ≤ document) :
    p.get? document = .ok none := by
  rw [get?, if_neg (Nat.not_lt.mpr past)]
  rfl

/-- What is accepted is the written form of the payloads that are then found in it. -/
theorem decode_restores (v : View) : Meets decode v
    (fun p w => ∃ payloads, p.Holds payloads ∧ v.rest = form payloads ++ w.rest ∧
      p.totalLength = (payloads.map List.length).sum) fun _ _ => True := by
  unfold decode
  rw [Meets.bind]
  refine Decoder.uint32_meets (fun v₁ enough rest₁ => ?_) (fun _ _ => trivial)
  rw [Meets.bind, Meets.lift (addSizes_one (Bytes.value_take_lt _))]
  generalize counted : Bytes.value (v.rest.take 4) = documents
  rw [Meets.bind]
  refine Decoder.table_meets (fun offsets v₂ _ table room _ rest₂ => ?_) (fun _ _ => trivial)
  rw [Meets.bind]
  refine Decoder.lastOffset_meets (fun entry inside => View.uint64At_entry room inside)
    (fun ascends => ?_) (fun _ _ => trivial)
  rw [Meets.bind]
  refine Decoder.slice_meets (fun data v₃ _ taken total _ rest₃ => ?_) (fun _ _ => trivial)
  have length : data.bytes.length = offsets.entry 8 documents := by rw [View.length_bytes, total]
  have ends : offsets.entry 8 documents ≤ data.bytes.length := Nat.le_of_eq length.symm
  refine ⟨data.bytes.cuts (offsets.entry 8) documents, ⟨by simp, fun document inside => ?_⟩, ?_, ?_⟩
  · rw [Bytes.length_cuts] at inside
    rw [Bytes.getElem_cuts]
    exact get?_cut inside (fun entry => View.uint64At_entry room) (ascends.step document inside)
      (total ▸ ascends.mono inside (Nat.le_refl documents))
  · -- the four parts of the written form are the four stretches that were consumed
    have count : Bytes.ofUInt32 documents = v.rest.take 4 := by
      rw [← counted, Bytes.ofUInt32_value (List.length_take_of_le enough)]
    rw [form, Bytes.length_cuts, count, Bytes.offsets_cuts ascends ends, View.flatMap_entry room,
      Bytes.flatten_cuts ascends, List.take_of_length_le (Nat.le_of_eq length), List.append_assoc,
      List.append_assoc, taken, table, rest₃, List.take_append_drop, rest₂, List.take_append_drop,
      rest₁, List.take_append_drop]
  · have sum := Bytes.sum_lengths_cuts ascends ends (Nat.le_refl documents)
    rw [List.take_of_length_le (by simp)] at sum
    rw [sum]
    exact total

/-- Payloads have one written form. What was written is read to its end and gives the payloads
back, and what is read to its end is what its payloads are written as. -/
theorem form_is_canonical :
    (∀ payloads : List Bytes, payloads.length < 2 ^ 32 → payloads.flatten.length < 2 ^ 64 →
      ∃ p w, decode.runOn (View.ofBytes (form payloads)) = (.ok p, w) ∧ w.remaining = 0 ∧
        p.Holds payloads ∧ ∀ document, payloads.length ≤ document → p.get? document = .ok none) ∧
    ∀ (bytes : Bytes) (p : Payloads) (w : View),
      decode.runOn (View.ofBytes bytes) = (.ok p, w) → w.remaining = 0 →
        ∃ payloads, p.Holds payloads ∧ form payloads = bytes ∧
          (payloads.map List.length).sum = p.totalLength := by
  constructor
  · intro payloads count fits
    obtain ⟨p, w, read, left, holds⟩ :=
      (decode_reads count fits).run_eq (View.rest_ofBytes (form payloads))
    refine ⟨p, w, read, ?_, holds, fun document past => get?_past (holds.documents ▸ past)⟩
    rw [← View.length_rest, left, List.length_nil]
  · intro bytes p w read ended
    obtain ⟨payloads, holds, whole, total⟩ := (decode_restores _).ok_of_run read
    rw [← View.length_rest, List.length_eq_zero_iff] at ended
    rw [ended, View.rest_ofBytes, List.append_nil, List.append_nil] at whole
    exact ⟨payloads, holds, whole.symm, total.symm⟩

def twoStored : Bytes :=
  [2, 0, 0, 0] ++ [0, 0, 0, 0, 0, 0, 0, 0] ++ [0, 0, 0, 0, 0, 0, 0, 0] ++
    [2, 0, 0, 0, 0, 0, 0, 0] ++ [7, 8]

theorem form_is_canonical_emptyFirst :
    (∃ p w, decode.runOn (View.ofBytes (form [[1, 2], [], [3]])) = (.ok p, w) ∧ w.remaining = 0 ∧
      p.Holds [[1, 2], [], [3]] ∧ p.get? 3 = .ok none) ∧
    ∃ p w payloads, decode.runOn (View.ofBytes twoStored) = (.ok p, w) ∧ w.remaining = 0 ∧
      p.Holds payloads ∧ form payloads = twoStored ∧ (payloads.map List.length).sum = 2 := by
  obtain ⟨written, stored⟩ := form_is_canonical
  obtain ⟨p, w, read, ended, holds, past⟩ := written [[1, 2], [], [3]] (by decide) (by decide)
  obtain ⟨q, u, accepted, left, total⟩ : ∃ q u,
      decode.runOn (View.ofBytes twoStored) = (.ok q, u) ∧ u.remaining = 0 ∧ q.totalLength = 2 :=
    ⟨_, _, rfl, rfl, rfl⟩
  obtain ⟨payloads, found, same, sum⟩ := stored twoStored q u accepted left
  exact ⟨⟨p, w, read, ended, holds, past 3 (by decide)⟩,
    q, u, payloads, accepted, left, found, same, sum.trans total⟩

end Payloads

end DocStore
