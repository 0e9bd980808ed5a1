/-! Lists of pairs in the order of their keys. Sorting keeps the order of the pairs of one key,
and the pairs of each key determine the sorted list. -/
namespace DocStore

variable {κ α : Type} {pairs others rest : List (κ × α)} {pair other : κ × α}

section Keys

variable [DecidableEq κ]

theorem mem_iff_of_filter_fst
    (same : ∀ key, pairs.filter (·.1 = key) = others.filter (·.1 = key)) (pair : κ × α) :
    pair ∈ pairs ↔ pair ∈ others := by
  simpa using congrArg (pair ∈ ·) (same pair.1)

/-- Where no key comes twice, the order of the pairs of one key says nothing. -/
theorem filter_fst_of_perm (reordered : others.Perm pairs) (distinct : (pairs.map Prod.fst).Nodup)
    (key : κ) : others.filter (·.1 = key) = pairs.filter (·.1 = key) := by
  have same := reordered.filter (·.1 = key)
  have apart := (List.filter_sublist (p := (·.1 = key)) (l := pairs)).map Prod.fst |>.nodup distinct
  have alike : ∀ pair ∈ pairs.filter (·.1 = key), pair.1 = key := fun pair listed =>
    of_decide_eq_true (List.mem_filter.mp listed).2
  generalize pairs.filter (·.1 = key) = kept at same apart alike ⊢
  match kept with
  | [] => exact List.perm_nil.mp same
  | [only] => exact List.perm_singleton.mp same
  | first :: second :: _ =>
    have repeated : first.1 = second.1 := (alike first (by simp)).trans (alike second (by simp)).symm
    simp [repeated] at apart

end Keys

section Order

variable [LE κ] [Std.IsLinearOrder κ]

theorem fst_le_of_mem (sorted : (pair :: rest).Pairwise fun a b => a.1 ≤ b.1)
    (member : other ∈ pair :: rest) : pair.1 ≤ other.1 := by
  rcases List.mem_cons.mp member with rfl | later
  · exact Std.le_refl _
  · exact List.rel_of_pairwise_cons sorted later

/-- Sorted pairs are determined by the pairs of each key. -/
theorem eq_of_filter_fst [DecidableEq κ] (left : pairs.Pairwise fun a b => a.1 ≤ b.1)
    (right : others.Pairwise fun a b => a.1 ≤ b.1)
    (same : ∀ key, pairs.filter (·.1 = key) = others.filter (·.1 = key)) : pairs = others := by
  induction pairs generalizing others with
  | nil =>
    cases others with
    | nil => rfl
    | cons other _ =>
      exact absurd ((mem_iff_of_filter_fst same other).mpr List.mem_cons_self) List.not_mem_nil
  | cons pair rest ih =>
    cases others with
    | nil =>
      exact absurd ((mem_iff_of_filter_fst same pair).mp List.mem_cons_self) List.not_mem_nil
    | cons other others =>
      have keys : pair.1 = other.1 := Std.le_antisymm
        (fst_le_of_mem left ((mem_iff_of_filter_fst same other).mpr List.mem_cons_self))
        (fst_le_of_mem right ((mem_iff_of_filter_fst same pair).mp List.mem_cons_self))
      have heads := same other.1
      simp only [List.filter_cons, keys, decide_true, if_true, List.cons.injEq] at heads
      obtain ⟨rfl, _⟩ := heads
      refine congrArg (pair :: ·) (ih left.of_cons right.of_cons fun key => ?_)
      have later := same key
      by_cases here : pair.1 = key <;> simpa [here] using later

variable [DecidableLE κ]

theorem fst_le_trans (a b c : κ × α) (left : decide (a.1 ≤ b.1) = true)
    (right : decide (b.1 ≤ c.1) = true) : decide (a.1 ≤ c.1) = true := by
  simp only [decide_eq_true_eq] at *
  exact Std.le_trans left right

theorem fst_le_total (a b : κ × α) : (decide (a.1 ≤ b.1) || decide (b.1 ≤ a.1)) = true := by
  simpa using Std.le_total

theorem pairwise_mergeSort_fst (pairs : List (κ × α)) :
    (pairs.mergeSort fun a b => a.1 ≤ b.1).Pairwise fun a b => a.1 ≤ b.1 :=
  (List.pairwise_mergeSort fst_le_trans fst_le_total pairs).imp of_decide_eq_true

/-- Sorting keeps the order of the pairs of one key. -/
theorem filter_mergeSort_fst [DecidableEq κ] (pairs : List (κ × α)) (key : κ) :
    (pairs.mergeSort fun a b => a.1 ≤ b.1).filter (·.1 = key) = pairs.filter (·.1 = key) := by
  have alike : (pairs.filter (·.1 = key)).Pairwise fun a b => decide (a.1 ≤ b.1) = true := by
    refine List.pairwise_of_forall_mem_list fun a left b right => ?_
    simp only [List.mem_filter, decide_eq_true_eq] at left right ⊢
    rw [left.2, right.2]
    exact Std.le_refl key
  have inOrder := (List.sublist_mergeSort fst_le_trans fst_le_total alike
    List.filter_sublist).filter (·.1 = key)
  rw [List.filter_filter] at inOrder
  simp only [Bool.and_self] at inOrder
  have count := ((List.mergeSort_perm pairs fun a b => a.1 ≤ b.1).filter (·.1 = key)).length_eq
  exact (inOrder.eq_of_length count.symm).symm

end Order

end DocStore
