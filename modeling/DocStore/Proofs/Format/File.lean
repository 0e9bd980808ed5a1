import DocStore.Format.File
import DocStore.Proofs.Views

/-! The frame of a file: read from arbitrary bytes without a fault, and opened on what was framed. -/
namespace DocStore.File

variable {file : View} {verify : Bool}

/-- The parts of a file that is long enough are found by subtraction. -/
theorem subSizes_frame {size n : Nat} (long : size = headerLength + n + Sha256.width) :
    subSizes size headerLength = .ok (n + Sha256.width) ∧
      subSizes (n + Sha256.width) Sha256.width = .ok n ∧
      subSizes size Sha256.width = .ok (headerLength + n) := by
  refine ⟨?_, ?_, ?_⟩
  · rw [subSizes_of_le (by omega)]
    exact congrArg Except.ok (by omega)
  · rw [subSizes_of_le (Nat.le_add_left _ _), Nat.add_sub_cancel]
  · rw [subSizes_of_le (by omega), long, Nat.add_sub_cancel]

theorem length_of_frame {size : Nat} (long : ¬ size < headerLength + Sha256.width) :
    ∃ n, size = headerLength + n + Sha256.width :=
  Nat.exists_eq_add_of_le' (Nat.le_of_not_lt long) |>.imp fun n long => by omega

/-- Bytes in memory are at the start of themselves. -/
theorem placed_ofBytes (bytes : Bytes) :
    (View.ofBytes bytes).start + headerLength < sizeLimit := by
  change 0 + 8 < sizeLimit
  decide

theorem openRegion_ends (placed : file.start + headerLength < sizeLimit) :
    Ends (openRegion file verify) fun region => region.start < sizeLimit := by
  unfold openRegion
  dsimp only
  by_cases short : file.size < headerLength + Sha256.width
  · rw [if_pos short]
    exact Ends.refused _
  rw [if_neg short]
  have room : 40 ≤ file.size := Nat.le_of_not_lt short
  obtain ⟨found, read, _⟩ := @View.uint32At_exists file 0 (by omega)
  obtain ⟨version, next, _⟩ := @View.uint32At_exists file 4 (by omega)
  rw [read, lift_ok, ok_bind]
  by_cases foreign : found ≠ magic
  · rw [if_pos foreign]
    exact Ends.refused _
  rw [if_neg foreign, next, lift_ok, ok_bind]
  by_cases other : version ≠ File.version
  · rw [if_pos other]
    exact Ends.refused _
  obtain ⟨n, long⟩ := length_of_frame short
  obtain ⟨front, back, last⟩ := subSizes_frame long
  rw [if_neg other, front, lift_ok, ok_bind, back, lift_ok, ok_bind, last]
  split
  · exact Ends.refused _
  · rename_i region cut
    have begins : region.start < sizeLimit := by
      rwa [(View.slice?_eq_some cut).2.2.2.1]
    split
    · rw [lift_ok, ok_bind, View.bytesAt_eq (Nat.le_of_eq long.symm), lift_ok, ok_bind]
      split
      · exact Ends.ok begins
      · exact Ends.refused _
    · exact Ends.ok begins

theorem length_form (region : Bytes) :
    (form region).length = headerLength + region.length + Sha256.width := by
  rw [form, List.length_append, List.length_append, length_header, Sha256.length_digest]

theorem verify_iff {bytes expected : Bytes} :
    Sha256.verify bytes expected = true ↔ expected = Sha256.digest bytes := by
  rw [Sha256.verify, Bool.and_eq_true, beq_iff_eq, beq_iff_eq]
  constructor
  · exact fun both => both.2.symm
  · rintro rfl
    exact ⟨Sha256.length_digest bytes, rfl⟩

variable {region stored : Bytes}

/-- A region between a header and 32 bytes is opened, if these are its digest or are not checked. -/
theorem openRegion_framed (framed : file.bytes = header ++ region ++ stored)
    (width : stored.length = Sha256.width) (sealed : verify = true → stored = Sha256.digest region) :
    ∃ opened, openRegion file verify = .ok opened ∧ opened.bytes = region ∧
      opened.position = 0 ∧ opened.start = file.start + headerLength := by
  have whole := file.has_bytes
  rw [framed] at whole
  have size : file.size = headerLength + region.length + Sha256.width := by
    rw [← View.length_bytes, framed, List.length_append, List.length_append, length_header, width]
  obtain ⟨front, back⟩ := View.Has.append whole
  obtain ⟨front, middle⟩ := front.append
  obtain ⟨first, second⟩ := View.Has.append front
  rw [List.length_append, length_header, Nat.zero_add] at back
  rw [length_header, Nat.zero_add] at middle
  rw [Bytes.length_ofUInt32, Nat.zero_add] at second
  have digest := back.bytesAt_eq
  rw [width] at digest
  obtain ⟨opened, cut⟩ := View.slice?_exists middle.inside
  obtain ⟨_, _, position, begins, bytes⟩ := View.slice?_eq_some cut
  have same : opened.bytes = region := bytes.trans middle.same
  refine ⟨opened, ?_, same, position, begins⟩
  obtain ⟨front, rest, last⟩ := subSizes_frame (n := region.length) rfl
  unfold openRegion
  dsimp only
  rw [size, if_neg (by omega), first.uint32At_eq (by decide), lift_ok, ok_bind,
    if_neg (not_not_intro rfl), second.uint32At_eq (by decide), lift_ok, ok_bind,
    if_neg (not_not_intro rfl), front, lift_ok, ok_bind, rest, lift_ok, ok_bind, cut, last]
  simp only [lift_ok, ok_bind, digest]
  cases verify with
  | false => rfl
  | true => exact if_pos (verify_iff.mpr (same.symm ▸ sealed rfl))

/-- The front of a file whose magic number and version are right. -/
theorem header_of_numbers (long : headerLength ≤ file.size)
    (first : Bytes.value (file.bytes.sub 0 4) = magic)
    (second : Bytes.value (file.bytes.sub 4 4) = version) :
    file.bytes.sub 0 headerLength = header := by
  have size := file.length_bytes
  rw [headerLength] at long
  have low : (file.bytes.sub 0 4).length = 4 := Bytes.length_sub (by omega)
  have high : (file.bytes.sub 4 4).length = 4 := Bytes.length_sub (by omega)
  rw [header, ← first, ← second, Bytes.ofUInt32_value low, Bytes.ofUInt32_value high]
  exact @Bytes.sub_add file.bytes 0 4 4

/-- A file in its three parts. -/
theorem bytes_cut {n : Nat} (long : file.size = headerLength + n + Sha256.width) :
    file.bytes = file.bytes.sub 0 headerLength ++ file.bytes.sub headerLength n ++
      file.bytes.sub (headerLength + n) Sha256.width := by
  have all := file.has_bytes.same
  rw [file.length_bytes, long, Bytes.sub_add, Bytes.sub_add, Nat.zero_add, Nat.zero_add] at all
  exact all.symm

/-- Nothing else is opened. -/
theorem openRegion_eq_ok {opened : View} (accepted : openRegion file verify = .ok opened) :
    ∃ stored, stored.length = Sha256.width ∧ file.bytes = header ++ opened.bytes ++ stored ∧
      (verify = true → stored = Sha256.digest opened.bytes) := by
  unfold openRegion at accepted
  dsimp only at accepted
  by_cases short : file.size < headerLength + Sha256.width
  · rw [if_pos short] at accepted
    cases accepted
  rw [if_neg short] at accepted
  have size := file.length_bytes
  obtain ⟨n, long⟩ := length_of_frame short
  obtain ⟨front, back, last⟩ := subSizes_frame long
  have least : 8 ≤ file.size := by
    rw [long, headerLength]
    omega
  rw [View.uint32At_eq (by omega), lift_ok, ok_bind] at accepted
  by_cases foreign : Bytes.value (file.bytes.sub 0 4) ≠ magic
  · rw [if_pos foreign] at accepted
    cases accepted
  rw [if_neg foreign, View.uint32At_eq (by omega), lift_ok, ok_bind] at accepted
  by_cases other : Bytes.value (file.bytes.sub 4 4) ≠ version
  · rw [if_pos other] at accepted
    cases accepted
  rw [if_neg other, front, lift_ok, ok_bind, back, lift_ok, ok_bind, last] at accepted
  have whole := bytes_cut long
  rw [header_of_numbers least (Decidable.not_not.mp foreign) (Decidable.not_not.mp other)] at whole
  refine ⟨file.bytes.sub (headerLength + n) Sha256.width, Bytes.length_sub (by omega), ?_⟩
  split at accepted
  · cases accepted
  · rename_i region cut
    obtain ⟨_, _, _, _, bytes⟩ := View.slice?_eq_some cut
    rw [← bytes] at whole
    split at accepted
    · rw [lift_ok, ok_bind, View.bytesAt_eq (by omega), lift_ok, ok_bind] at accepted
      split at accepted
      · rename_i sealed
        cases accepted
        exact ⟨whole, fun _ => verify_iff.mp sealed⟩
      · cases accepted
    · rename_i unchecked
      cases accepted
      exact ⟨whole, fun checked => absurd checked unchecked⟩

end DocStore.File
