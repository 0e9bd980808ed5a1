/-! Lists in strictly ascending order are determined by their members. -/
namespace DocStore

variable {α : Type} [LT α] [Std.Asymm fun a b : α => a < b] {items others : List α}

theorem ne_of_ascending {a b : α} (order : a < b) : a ≠ b := by
  rintro rfl
  exact Std.Asymm.asymm a a order order

theorem nodup_of_ascending (ascending : items.Pairwise (· < ·)) : items.Nodup :=
  ascending.imp ne_of_ascending

theorem eq_of_ascending (left : items.Pairwise (· < ·)) (right : others.Pairwise (· < ·))
    (same : ∀ a, a ∈ items ↔ a ∈ others) : items = others :=
  ((List.perm_ext_iff_of_nodup (nodup_of_ascending left) (nodup_of_ascending right)).mpr
    same).eq_of_pairwise (fun _ _ _ _ lower upper => absurd upper (Std.Asymm.asymm _ _ lower))
    left right

/-- An ascending list of numbers is the numbers below a bound that are in it. -/
theorem filter_range_mem {listed : List Nat} {bound : Nat} (ascending : listed.Pairwise (· < ·))
    (below : ∀ i ∈ listed, i < bound) : (List.range bound).filter (· ∈ listed) = listed := by
  refine eq_of_ascending (List.pairwise_lt_range.filter _) ascending fun i => ?_
  rw [List.mem_filter, List.mem_range, decide_eq_true_eq]
  exact ⟨And.right, fun member => ⟨below i member, member⟩⟩

theorem eraseReps_loop {first : Nat} {listed kept : List Nat}
    (sorted : (first :: listed).Pairwise (· ≤ ·))
    (built : (kept.reverse ++ [first]).Pairwise (· < ·)) :
    (List.eraseRepsBy.loop (· == ·) first listed kept).Pairwise (· < ·) ∧
      ∀ i, i ∈ List.eraseRepsBy.loop (· == ·) first listed kept ↔ i ∈ kept ∨ i ∈ first :: listed := by
  induction listed generalizing first kept with
  | nil =>
    rw [List.eraseRepsBy.loop, List.reverse_cons]
    exact ⟨built, fun i => by simp [or_comm]⟩
  | cons second rest ih =>
    obtain ⟨least, others⟩ := List.pairwise_cons.mp sorted
    rw [List.eraseRepsBy.loop]
    by_cases same : first = second
    · subst same
      simp only [BEq.rfl]
      obtain ⟨ascending, members⟩ := ih others built
      exact ⟨ascending, fun i => by rw [members]; simp⟩
    · simp only [beq_false_of_ne same]
      have order : first < second :=
        Nat.lt_of_le_of_ne (least second List.mem_cons_self) same
      obtain ⟨ascending, members⟩ := @ih second (first :: kept) others <| by
        rw [List.reverse_cons]
        refine List.pairwise_append.mpr ⟨built, List.pairwise_singleton _ _, fun i inside j last => ?_⟩
        rw [List.mem_singleton.mp last]
        rcases List.mem_append.mp inside with earlier | here
        · exact Nat.lt_trans
            ((List.pairwise_append.mp built).2.2 i earlier first List.mem_cons_self) order
        · exact List.mem_singleton.mp here ▸ order
      exact ⟨ascending, fun i => by rw [members]; simp only [List.mem_cons]; grind⟩

/-- Sorting and dropping repetitions leaves the members in ascending order. -/
theorem eraseReps_mergeSort (listed : List Nat) :
    ((listed.mergeSort (· ≤ ·)).eraseReps).Pairwise (· < ·) ∧
      ∀ i, i ∈ (listed.mergeSort (· ≤ ·)).eraseReps ↔ i ∈ listed := by
  have sorted : (listed.mergeSort (· ≤ ·)).Pairwise (· ≤ ·) :=
    (List.pairwise_mergeSort (fun _ _ _ left right => by
      simp only [decide_eq_true_eq] at *
      omega) (fun _ _ => by simp; omega) listed).imp of_decide_eq_true
  have members : ∀ i, i ∈ listed.mergeSort (· ≤ ·) ↔ i ∈ listed := fun i => List.mem_mergeSort
  revert sorted members
  cases listed.mergeSort (· ≤ ·) with
  | nil => exact fun _ members => ⟨.nil, members⟩
  | cons first rest =>
    intro sorted members
    obtain ⟨ascending, same⟩ := @eraseReps_loop first rest [] sorted (List.pairwise_singleton _ _)
    exact ⟨ascending, fun i => by rw [← members, List.eraseReps, List.eraseRepsBy, same]; simp⟩

/-- What sorting and dropping repetitions leaves is told by the members. -/
theorem eraseReps_mergeSort_congr {listed others : List Nat} (same : ∀ i, i ∈ listed ↔ i ∈ others) :
    (listed.mergeSort (· ≤ ·)).eraseReps = (others.mergeSort (· ≤ ·)).eraseReps := by
  obtain ⟨ascending, members⟩ := eraseReps_mergeSort listed
  obtain ⟨ascending', members'⟩ := eraseReps_mergeSort others
  exact eq_of_ascending ascending ascending' fun i => by rw [members, members', same]

end DocStore
