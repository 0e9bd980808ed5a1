import DocStore.Proofs.ByteOrder
import DocStore.Proofs.Trie.Layout

/-! The tree of an ascending list holds that list. -/
namespace DocStore

namespace Bytes

/-- What lies between two byte strings starts with what they have in common. -/
theorem commonStart_prefix {low value high : Bytes} (above : low ≤ value) (below : value ≤ high) :
    commonStart low high <+: value := by
  induction low generalizing value high with
  | nil => exact List.nil_prefix
  | cons first low ih =>
    cases high with
    | nil => exact List.nil_prefix
    | cons last high =>
      by_cases same : first = last
      · subst same
        cases value with
        | nil => exact absurd (List.nil_lt_cons first low) above
        | cons byte value =>
          rcases List.cons_le_cons_iff.mp above with lower | ⟨rfl, lower⟩
          · rcases List.cons_le_cons_iff.mp below with upper | ⟨rfl, _⟩
            · exact absurd (UInt8.lt_trans lower upper) (UInt8.lt_irrefl _)
            · exact absurd lower (UInt8.lt_irrefl _)
          · rcases List.cons_le_cons_iff.mp below with upper | ⟨_, upper⟩
            · exact absurd upper (UInt8.lt_irrefl _)
            · rw [commonStart, if_pos rfl]
              exact List.cons_prefix_cons.mpr ⟨rfl, ih lower upper⟩
      · rw [commonStart, if_neg same]
        exact List.nil_prefix

end Bytes

namespace Trie

variable {values : List Bytes}

theorem takeBranch_eq (byte : UInt8) (values : List Bytes) :
    (takeBranch byte values).1.map (byte :: ·) ++ (takeBranch byte values).2 = values := by
  fun_induction takeBranch byte values with
  | case1 tail values same others split ih =>
    rw [split] at ih
    rw [List.map_cons, List.cons_append, ih]
  | case2 => rfl
  | case3 => rfl

theorem takeBranch_head {byte : UInt8} {values : List Bytes} {tail : Bytes} {rest : List Bytes} :
    (takeBranch byte values).2 ≠ (byte :: tail) :: rest := by
  fun_induction takeBranch byte values with
  | case1 tail values same others split ih =>
    rw [split] at ih
    exact ih
  | case2 first tail values other =>
    intro same
    exact other (List.cons.inj (List.cons.inj same).1).1
  | case3 values other =>
    rintro rfl
    exact other _ _ _ rfl

theorem prefix_of_ascending (ascending : values.Pairwise (· < ·)) {value : Bytes}
    (inside : value ∈ values) : sharedStart values <+: value := by
  refine Bytes.commonStart_prefix ?_ ?_
  · cases values with
    | nil => exact absurd inside List.not_mem_nil
    | cons first rest =>
      rcases List.mem_cons.mp inside with rfl | later
      · exact List.le_refl _
      · exact List.le_of_lt ((List.pairwise_cons.mp ascending).1 value later)
  · rcases List.eq_nil_or_concat values with rfl | ⟨front, last, rfl⟩
    · exact absurd inside List.not_mem_nil
    · rw [List.concat_eq_append] at inside ascending ⊢
      rw [List.getLast?_concat, Option.getD_some]
      rcases List.mem_append.mp inside with earlier | here
      · exact List.le_of_lt
          ((List.pairwise_append.mp ascending).2.2 value earlier last List.mem_cons_self)
      · rw [List.mem_singleton.mp here]
        exact List.le_refl _

theorem map_dropStarts (ascending : values.Pairwise (· < ·)) :
    (dropStarts (sharedStart values).length values).map (sharedStart values ++ ·) = values := by
  rw [dropStarts, List.map_map]
  refine (List.map_congr_left fun value inside => ?_).trans (List.map_id values)
  obtain ⟨suffix, same⟩ := prefix_of_ascending ascending inside
  rw [Function.comp_apply, id, ← same, List.drop_left]

theorem nonEmpty_eq (ascending : values.Pairwise (· < ·)) :
    (if values.head? == some [] then [[]] else []) ++ nonEmpty values = values ∧
      (nonEmpty values).Pairwise (· < ·) ∧ [] ∉ nonEmpty values := by
  fun_cases nonEmpty values with
  | case1 rest =>
    obtain ⟨least, ascending⟩ := List.pairwise_cons.mp ascending
    exact ⟨rfl, ascending, fun inside => List.lt_irrefl _ (least [] inside)⟩
  | case2 values other =>
    cases values with
    | nil => exact ⟨rfl, ascending, List.not_mem_nil⟩
    | cons first rest =>
      cases first with
      | nil => exact absurd rfl (other rest)
      | cons byte tail =>
        refine ⟨rfl, ascending, fun inside => ?_⟩
        rcases List.mem_cons.mp inside with same | later
        · contradiction
        · exact List.not_lt_nil _ ((List.pairwise_cons.mp ascending).1 [] later)

/-- The tree of ascending values has just these, in an order that a reader accepts. -/
def TreeHolds (values : List Bytes) : Prop :=
  values.Pairwise (· < ·) → values ≠ [] →
    (ofSorted values).toList = values ∧ (ofSorted values).Proper

/-- So have the branches of ascending values, none of them empty; and behind a byte below all of
these they are in order. -/
def BranchesHold (values : List Bytes) : Prop :=
  values.Pairwise (· < ·) → [] ∉ values →
    (branchesOf values).toList = values ∧ ∀ last : Option UInt8,
      (∀ byte tail rest, values = (byte :: tail) :: rest → last.any (byte ≤ ·) = false) →
        (branchesOf values).Proper last

theorem treeHolds_of_branches
    (branches : BranchesHold (nonEmpty (dropStarts (sharedStart values).length values))) :
    TreeHolds values := by
  intro ascending some
  have whole := map_dropStarts ascending
  have suffixes : (dropStarts (sharedStart values).length values).Pairwise (· < ·) := by
    rw [← whole] at ascending
    exact (List.pairwise_map.mp ascending).imp Bytes.append_lt_append.mp
  obtain ⟨parts, rest, filled⟩ := nonEmpty_eq suffixes
  obtain ⟨listed, proper⟩ := branches rest filled
  have spelled : (ofSorted values).toList = values := by
    rw [ofSorted, Trie.toList, listed, parts]
    exact whole
  refine ⟨spelled, ?_⟩
  have counted := (ofSorted values).length_toList
  rw [spelled] at counted
  rw [ofSorted] at counted ⊢
  refine ⟨?_, proper none fun _ _ _ _ => rfl⟩
  rw [Trie.count] at counted
  rw [← counted]
  exact List.length_pos_iff.mpr some

theorem branchesHold_cons {byte : UInt8} {tail : Bytes}
    (child : TreeHolds (tail :: (takeBranch byte values).1))
    (rest : BranchesHold (takeBranch byte values).2) : BranchesHold ((byte :: tail) :: values) := by
  intro ascending filled
  have whole : (tail :: (takeBranch byte values).1).map (byte :: ·) ++ (takeBranch byte values).2 =
      (byte :: tail) :: values := congrArg ((byte :: tail) :: ·) (takeBranch_eq byte values)
  rw [← whole] at ascending filled
  obtain ⟨front, back, apart⟩ := List.pairwise_append.mp ascending
  obtain ⟨spelled, proper⟩ := child
    ((List.pairwise_map.mp front).imp Bytes.cons_lt_cons.mp) (List.cons_ne_nil _ _)
  obtain ⟨others, properRest⟩ := rest back fun inside => filled (List.mem_append_right _ inside)
  rw [branchesOf]
  refine ⟨by rw [Branches.toList, spelled, others, whole], fun last above => ?_⟩
  refine ⟨above byte tail values rfl, proper, properRest _ fun other rest others same => ?_⟩
  have order : byte :: tail < other :: rest :=
    apart _ List.mem_cons_self _ (same ▸ List.mem_cons_self)
  rcases List.cons_lt_cons_iff.mp order with lower | ⟨rfl, _⟩
  · simpa using lower
  · exact absurd same takeBranch_head

theorem branchesHold_nil : BranchesHold [] := by
  intro _ _
  rw [branchesOf]
  · exact ⟨rfl, fun _ _ => trivial⟩
  · exact fun _ _ _ same => by contradiction

/-- A tree holds the values it was built from. -/
theorem ofSorted_holds (values : List Bytes) (ascending : values.Pairwise (· < ·))
    (some : values ≠ []) : (ofSorted values).toList = values ∧ (ofSorted values).Proper := by
  refine ofSorted.induct TreeHolds BranchesHold ?_ ?_ ?_ values ascending some
  · intro values label ends branches
    exact treeHolds_of_branches branches
  · intro byte tail values split child rest
    exact branchesHold_cons child rest
  · intro values other ascending filled
    match values with
    | [] => exact branchesHold_nil ascending filled
    | [] :: rest => exact absurd List.mem_cons_self filled
    | (byte :: tail) :: rest => exact (other byte tail rest rfl).elim

end Trie

end DocStore
