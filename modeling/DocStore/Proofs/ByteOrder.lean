import DocStore.Bytes

/-! The order of byte strings against their common starts. -/
namespace DocStore.Bytes

variable {a b label : Bytes} {byte : UInt8}

theorem cons_lt_cons : byte :: a < byte :: b ↔ a < b := by
  rw [List.cons_lt_cons_iff]
  simp only [UInt8.lt_irrefl, false_or, true_and]

theorem cons_lt_cons_of_lt {first second : UInt8} (lower : first < second) :
    first :: a < second :: b :=
  List.cons_lt_cons_iff.mpr (Or.inl lower)

theorem append_lt_append : label ++ a < label ++ b ↔ a < b := by
  induction label with
  | nil => rfl
  | cons head rest ih => rw [List.cons_append, List.cons_append, cons_lt_cons, ih]

/-- A byte string that does not start with a label is on one side of all that do. -/
theorem append_lt_iff (apart : label.isPrefixOf b = false) : label ++ a < b ↔ label < b := by
  induction label generalizing b with
  | nil => simp at apart
  | cons head rest ih =>
    cases b with
    | nil => simp only [List.cons_append, List.not_lt_nil]
    | cons first tail =>
      rw [List.cons_append, List.cons_lt_cons_iff, List.cons_lt_cons_iff]
      by_cases same : head = first
      · subst same
        rw [List.isPrefixOf, BEq.rfl, Bool.true_and] at apart
        rw [ih apart]
      · simp only [same, false_and, or_false]

theorem append_ne (apart : label.isPrefixOf b = false) : label ++ a ≠ b := by
  rintro rfl
  rw [List.isPrefixOf_iff_prefix.mpr (List.prefix_append label a)] at apart
  contradiction

variable {values : List Bytes}

theorem countP_map_append :
    (values.map (label ++ ·)).countP (· < label ++ b) = values.countP (· < b) := by
  rw [List.countP_map]
  exact List.countP_congr fun value _ => by simpa using append_lt_append

theorem contains_map_append :
    (values.map (label ++ ·)).contains (label ++ b) = values.contains b := by
  simp only [List.contains_eq_mem, List.mem_map, List.append_cancel_left_eq, exists_eq_right]

theorem countP_map_append_apart (apart : label.isPrefixOf b = false) :
    (values.map (label ++ ·)).countP (· < b) = if label < b then values.length else 0 := by
  rw [List.countP_map]
  split
  · exact List.countP_eq_length.mpr fun value _ => by simpa [append_lt_iff apart]
  · exact List.countP_eq_zero.mpr fun value _ => by simpa [append_lt_iff apart]

theorem contains_map_append_apart (apart : label.isPrefixOf b = false) :
    (values.map (label ++ ·)).contains b = false := by
  rw [List.contains_eq_mem, decide_eq_false_iff_not, List.mem_map]
  exact fun ⟨_, _, same⟩ => append_ne apart same

section Cons

variable {first : UInt8}

theorem countP_map_cons :
    (values.map (byte :: ·)).countP (· < byte :: b) = values.countP (· < b) :=
  @countP_map_append b [byte] values

theorem contains_map_cons : (values.map (byte :: ·)).contains (byte :: b) = values.contains b :=
  @contains_map_append b [byte] values

theorem countP_map_cons_of_lt (lower : first < byte) :
    (values.map (first :: ·)).countP (· < byte :: b) = values.length := by
  rw [List.countP_map]
  exact List.countP_eq_length.mpr fun value _ => by simpa using cons_lt_cons_of_lt lower

theorem contains_map_cons_of_ne (apart : first ≠ byte) :
    (values.map (first :: ·)).contains (byte :: b) = false := by
  refine @contains_map_append_apart (byte :: b) [first] values ?_
  rw [List.isPrefixOf, beq_false_of_ne apart, Bool.false_and]

end Cons

end DocStore.Bytes
