import DocStore.Format.Payloads
import DocStore.Proofs.OffsetTables

/-! Payloads: all there from arbitrary bytes, and the ones that were written from a written form. -/
namespace DocStore.Payloads

structure Stored (p : Payloads) : Prop where
  small : p.documents < 2 ^ 32
  get : ∀ document < p.documents, ∃ payload, p.get? document = .ok (some payload)

theorem Stored.room {p : Payloads} (stored : p.Stored) : p.documents + 63 < sizeLimit :=
  Nat.lt_trans (Nat.add_lt_add_right stored.small 63) (by decide)

/-- The payloads are byte for byte the listed ones. -/
structure Holds (p : Payloads) (payloads : List Bytes) : Prop where
  documents : p.documents = payloads.length
  get : ∀ (document : Nat) (inside : document < payloads.length),
    ∃ payload, p.get? document = .ok (some payload) ∧ payload.bytes = payloads[document]

/-- The payload of a document lies between its offsets. -/
theorem get?_cut {p : Payloads} {offset : Nat → Nat} {document : Nat}
    (inside : document < p.documents)
    (entries : ∀ entry ≤ p.documents, p.offsets.uint64At (entry * 8) = .ok (offset entry))
    (step : offset document ≤ offset (document + 1)) (room : offset (document + 1) ≤ p.data.size) :
    ∃ payload, p.get? document = .ok (some payload) ∧ payload.bytes =
      p.data.bytes.sub (offset document) (offset (document + 1) - offset document) := by
  obtain ⟨payload, cut⟩ := @View.slice?_exists p.data (offset document)
    (offset (document + 1) - offset document) (by omega)
  refine ⟨payload, ?_, (View.slice?_eq_some cut).2.2.2.2⟩
  simp only [get?, if_pos inside, entries document (Nat.le_of_lt inside),
    entries (document + 1) inside, subSizes_of_le step, ok_bind, cut, pure_eq_ok]

theorem decode_meets {v : View} {post : Payloads → View → Prop}
    {refused : FormatError → View → Prop} (read : ∀ p w, p.Stored → post p w)
    (refusal : ∀ e w, refused e w) : Meets decode v post refused := by
  unfold decode
  rw [Meets.bind]
  refine Decoder.uint32_meets (fun v₁ _ _ => ?_) (fun _ e => refusal e _)
  rw [Meets.bind, Meets.lift (addSizes_one (Bytes.value_take_lt _)), Meets.bind]
  refine Decoder.table_meets (fun offsets v₂ _ _ room _ _ => ?_) (fun _ e => refusal e _)
  rw [Meets.bind]
  refine Decoder.lastOffset_meets (fun entry inside => View.uint64At_entry room inside)
    (fun ascends => ?_) (fun _ e => refusal e _)
  rw [Meets.bind]
  refine Decoder.slice_meets (fun data v₄ _ _ total _ _ => ?_) (fun _ e => refusal e _)
  refine read _ v₄ ⟨Bytes.value_take_lt _, fun document inside => ?_⟩
  have next : document + 1 ≤ Bytes.value (v.rest.take 4) := inside
  obtain ⟨payload, found, _⟩ := @get?_cut ⟨_, offsets, data⟩ (offsets.entry 8) document inside
    (fun entry => View.uint64At_entry room) (ascends.step document next)
    (total ▸ ascends.mono next (Nat.le_refl _))
  exact ⟨payload, found⟩

/-- Written payloads are read back. -/
theorem decode_reads {payloads : List Bytes} (size : payloads.length < 2 ^ 32)
    (fits : payloads.flatten.length < 2 ^ 64) :
    Decoder.Reads decode (form payloads) fun p => p.Holds payloads := by
  have sum : (payloads.map List.length).sum = payloads.flatten.length := List.length_flatten.symm
  have count : (payloads.map List.length).length = payloads.length := List.length_map _
  have table : ((Bytes.offsets (payloads.map List.length)).flatMap Bytes.ofUInt64).length =
      (payloads.length + 1) * 8 := by
    rw [Bytes.length_flatMap_width fun _ _ => Bytes.length_ofUInt64 _, Bytes.length_offsets, count]
  unfold decode form
  rw [List.append_assoc]
  refine (Decoder.Reads.uint32 size).bind fun _ same => ?_
  subst same
  refine (Decoder.Reads.lift (addSizes_one size)).bind_nil fun _ same => ?_
  subst same
  refine (Decoder.Reads.table table (by unfold sizeLimit; omega)).bind fun offsets stored => ?_
  have answers : ∀ entry ≤ payloads.length, offsets.uint64At (entry * 8) =
      .ok ((payloads.map List.length).take entry).sum := fun entry inside =>
    View.uint64At_offsets stored.1 (sum ▸ fits) (count ▸ inside)
  refine (Decoder.Reads.lastOffset answers (count ▸ ascends_sums _)).bind_nil fun _ same => ?_
  rw [same, List.take_of_length_le (Nat.le_of_eq count), sum]
  refine (Decoder.Reads.slice _).bind_last fun data stored => Decoder.Reads.pure ⟨rfl, ?_⟩
  intro document inside
  have here : document < (payloads.map List.length).length := count.symm ▸ inside
  have next := List.sum_take_succ _ _ here
  have bound := sum_take_le (payloads.map List.length) (document + 1)
  have size : data.size = payloads.flatten.length := by rw [← View.length_bytes, stored.1]
  rw [List.getElem_map] at next
  obtain ⟨payload, found, same⟩ := @get?_cut ⟨payloads.length, offsets, data⟩
    (fun k => ((payloads.map List.length).take k).sum) document inside answers
    (next ▸ Nat.le_add_right _ _) (size ▸ sum ▸ bound)
  refine ⟨payload, found, ?_⟩
  rw [same, next, Nat.add_sub_cancel_left, stored.1, Bytes.sub, flatten_drop_take payloads inside]

end DocStore.Payloads
