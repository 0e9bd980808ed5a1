import DocStore.Proofs.Dictionary.Flat
import DocStore.Proofs.Trie.Decoding
import DocStore.Proofs.Trie.Sorted

/-! Decoded dictionaries: safe from arbitrary bytes, and the set that was written from each of
the stored forms. -/
namespace DocStore

variable {s : ValueSet} {values : List Bytes}

theorem length_le_flatten_of_filled (filled : [] ∉ values) :
    values.length ≤ values.flatten.length := by
  induction values with
  | nil => exact Nat.zero_le _
  | cons first rest ih =>
    have some : 0 < first.length := List.length_pos_iff.mpr fun empty =>
      filled (empty ▸ List.mem_cons_self)
    have others := ih fun inside => filled (List.mem_cons_of_mem _ inside)
    rw [List.length_cons, List.flatten_cons, List.length_append]
    omega

theorem length_le_flatten (ascending : values.Pairwise (· < ·)) :
    values.length ≤ values.flatten.length + 1 := by
  cases values with
  | nil => exact Nat.zero_le _
  | cons first rest =>
    have others := length_le_flatten_of_filled fun inside =>
      List.not_lt_nil _ ((List.pairwise_cons.mp ascending).1 [] inside)
    rw [List.length_cons, List.flatten_cons, List.length_append]
    omega

theorem ValueSet.uniformLength?_of_alike {first : Bytes} {rest : List Bytes}
    (known : s.values = first :: rest)
    (alike : ∀ v ∈ s.values, ∀ w ∈ s.values, v.length = w.length) :
    s.uniformLength? = some first.length := by
  rw [known] at alike
  have all : rest.all (·.length = first.length) = true := List.all_eq_true.mpr fun w later =>
    decide_eq_true (alike w (List.mem_cons_of_mem _ later) first List.mem_cons_self)
  unfold uniformLength?
  rw [known]
  exact if_pos all

/-- Values that are alike in length have the width of the form with values of one width. -/
theorem ValueSet.uniform_of_alike
    (alike : ∀ v ∈ s.values, ∀ w ∈ s.values, v.length = w.length) :
    ∀ value ∈ s.values, value.length = s.uniformLength?.getD 0 := by
  intro value inside
  cases known : s.values with
  | nil => exact absurd (known ▸ inside) List.not_mem_nil
  | cons first rest =>
    rw [ValueSet.uniformLength?_of_alike known alike, Option.getD_some]
    exact alike value inside first (known ▸ List.mem_cons_self)

theorem ValueSet.uniform_of_length (known : s.uniformLength?.isSome ∨ s.isEmpty) :
    ∀ value ∈ s.values, value.length = s.uniformLength?.getD 0 := by
  intro value inside
  unfold uniformLength? isEmpty at *
  cases values : s.values with
  | nil => exact absurd (values ▸ inside) List.not_mem_nil
  | cons first rest =>
    rw [values] at known inside
    dsimp only at known ⊢
    by_cases all : rest.all (·.length = first.length) = true
    · rw [if_pos all, Option.getD_some]
      rcases List.mem_cons.mp inside with rfl | later
      · rfl
      · exact of_decide_eq_true (List.all_eq_true.mp all value later)
    · rw [if_neg all] at known
      rcases known with some | empty <;> contradiction

theorem StoredTrie.decode_reads {nodes : Bytes} {rootAt : Nat} (size : values.length < 2 ^ 32)
    (below : rootAt < 2 ^ 32) (short : nodes.length < 2 ^ 32)
    (spelled : ∀ region : View, region.bytes = nodes → values ≠ [] → Spells region rootAt values) :
    Decoder.Reads decode
      (Bytes.ofUInt32 values.length ++ (Bytes.ofUInt32 rootAt ++ Bytes.counted nodes)) fun t =>
        t.Stands values := by
  unfold decode
  refine (Decoder.Reads.uint32 size).bind fun _ counted => ?_
  refine (Decoder.Reads.uint32 below).bind fun _ placed => ?_
  refine (Decoder.Reads.uint32 short).bind fun _ measured => ?_
  rw [counted, placed, measured]
  refine (Decoder.Reads.slice nodes).bind_last fun region stored => ?_
  have stands : Stands ⟨values.length, rootAt, region⟩ values :=
    ⟨rfl, fun some => spelled region stored.1 fun empty => some (by rw [empty]; rfl)⟩
  exact (Decoder.Reads.checked (check_of_stands stands)).bind_nil fun _ _ =>
    Decoder.Reads.pure stands

namespace Dictionary

theorem decode_meets {v : View} {post : Dictionary → View → Prop}
    {refused : FormatError → View → Prop} (read : ∀ d w, d.Safe → post d w)
    (refusal : ∀ e w, refused e w) : Meets decode v post refused := by
  unfold decode
  rw [Meets.bind, Decoder.position, Meets.bind, Meets.get, Meets.pure, Meets.bind]
  refine Decoder.uint32_meets (fun w _ _ => ?_) (fun _ e => refusal e _)
  split
  · rw [Meets.bind]
    exact FixedTable.decode_meets (fun t w safe => read _ w safe) refusal
  · rw [Meets.bind]
    exact VariableTable.decode_meets (fun t w safe => read _ w safe) refusal
  · rw [Meets.bind]
    exact StoredTrie.decode_meets (fun t values w stands => read _ w stands.holds.safe) refusal
  · exact refusal _ _

def nodesOf (s : ValueSet) : Bytes :=
  if s.isEmpty then [] else ((Trie.ofSorted s.values).layout 0).1

def Fits (s : ValueSet) : DictionaryKind → Prop
  | .fixed => s.size < 2 ^ 32 ∧ s.uniformLength?.getD 0 < 2 ^ 32
  | .varied => s.size < 2 ^ 32 ∧ s.totalLength < 2 ^ 32
  | .trie => (nodesOf s).length < 2 ^ 32

instance : (kind : DictionaryKind) → Decidable (Fits s kind)
  | .fixed => inferInstanceAs (Decidable (_ ∧ _))
  | .varied => inferInstanceAs (Decidable (_ ∧ _))
  | .trie => inferInstanceAs (Decidable (_ < _))

structure Writable (s : ValueSet) (kind : DictionaryKind) : Prop where
  ascending : s.values.Pairwise (· < ·)
  uniform : kind = .fixed → ∀ value ∈ s.values, value.length = s.uniformLength?.getD 0
  fits : Fits s kind

theorem length_trieForm (s : ValueSet) : s.trieForm.length = 16 + (nodesOf s).length := by
  unfold ValueSet.trieForm nodesOf Bytes.counted
  cases s.isEmpty with
  | true => simp
  | false =>
    simp only [Bool.false_eq_true, if_false, List.length_append, Bytes.length_ofUInt32]
    omega

theorem size_le_nodesOf (ascending : s.values.Pairwise (· < ·)) :
    s.size ≤ (nodesOf s).length := by
  unfold nodesOf
  cases empty : s.isEmpty with
  | true =>
    have none : s.values = [] := List.isEmpty_iff.mp empty
    simp [ValueSet.size, none]
  | false =>
    have some : s.values ≠ [] := fun none => by simp [ValueSet.isEmpty, none] at empty
    have counted := (Trie.ofSorted s.values).count_le_layout 0
    rw [← Trie.length_toList, (Trie.ofSorted_holds s.values ascending some).1] at counted
    rw [if_neg Bool.false_ne_true, ValueSet.size]
    omega

theorem size_le_form (ascending : s.values.Pairwise (· < ·)) (kind : DictionaryKind) :
    s.size + 11 ≤ (s.form kind).length := by
  have count := length_le_flatten ascending
  have size : s.size = s.values.length := rfl
  cases kind with
  | fixed =>
    simp only [ValueSet.form, ValueSet.fixedForm, List.length_append, Bytes.length_ofUInt32]
    omega
  | varied =>
    simp only [ValueSet.form, ValueSet.variableForm, List.length_append, Bytes.length_ofUInt32]
    rw [Bytes.length_flatMap_width fun _ _ => Bytes.length_ofUInt32 _, Bytes.length_offsets]
    omega
  | trie =>
    have nodes := size_le_nodesOf ascending
    rw [ValueSet.form, length_trieForm]
    omega

/-- The numbers of a short form fit. -/
theorem writable_of_short {kind : DictionaryKind} (ascending : s.values.Pairwise (· < ·))
    (uniform : kind = .fixed → ∀ value ∈ s.values, value.length = s.uniformLength?.getD 0)
    (short : (s.form kind).length < 2 ^ 32) : Writable s kind := by
  refine ⟨ascending, uniform, ?_⟩
  have size := size_le_form ascending kind
  cases kind with
  | fixed =>
    constructor
    · omega
    · simp only [ValueSet.form, ValueSet.fixedForm, List.length_append, Bytes.length_ofUInt32] at short
      cases known : s.values with
      | nil => simp [ValueSet.uniformLength?, known]
      | cons first rest =>
        have here := uniform rfl first (known ▸ List.mem_cons_self)
        rw [known, List.flatten_cons, List.length_append] at short
        omega
  | varied =>
    constructor
    · omega
    · simp only [ValueSet.form, ValueSet.variableForm, List.length_append] at short
      unfold ValueSet.totalLength
      omega
  | trie =>
    rw [ValueSet.form, length_trieForm] at short
    exact Nat.lt_of_le_of_lt (Nat.le_add_left _ _) short

/-- The tree of some values, laid out, spells them wherever its bytes stand. -/
theorem spells_ofSorted {values : List Bytes} (ascending : values.Pairwise (· < ·))
    (some : values ≠ []) (short : ((Trie.ofSorted values).layout 0).1.length < 2 ^ 32)
    {region : View} (same : region.bytes = ((Trie.ofSorted values).layout 0).1) :
    StoredTrie.Spells region ((Trie.ofSorted values).layout 0).2 values ∧
      ((Trie.ofSorted values).layout 0).2 + 5 ≤
        0 + ((Trie.ofSorted values).layout 0).1.length := by
  obtain ⟨listed, proper⟩ := Trie.ofSorted_holds values ascending some
  have size : region.size < 2 ^ 32 := by
    rw [← View.length_bytes, same]
    exact short
  have spelled := Trie.spells_layout proper size (same ▸ region.has_bytes)
  rwa [listed] at spelled

theorem fixedForm_reads (ascending : s.values.Pairwise (· < ·))
    (uniform : ∀ value ∈ s.values, value.length = s.uniformLength?.getD 0) (size : s.size < 2 ^ 32)
    (width : s.uniformLength?.getD 0 < 2 ^ 32) :
    Decoder.Reads decode s.fixedForm fun d => d.kind = .fixed ∧ d.Holds s.values := by
  rw [decode, ValueSet.fixedForm, List.append_assoc, List.append_assoc]
  refine Decoder.Reads.tagged (by decide) fun _ => ?_
  simp only [DictionaryKind.ofCode?_code]
  rw [ValueSet.size, ← List.append_assoc]
  exact (FixedTable.decode_reads ascending uniform size width).bind_last
    fun _ holds => Decoder.Reads.pure ⟨rfl, holds⟩

theorem variableForm_reads (ascending : s.values.Pairwise (· < ·)) (size : s.size < 2 ^ 32)
    (total : s.totalLength < 2 ^ 32) :
    Decoder.Reads decode s.variableForm fun d => d.kind = .varied ∧ d.Holds s.values := by
  rw [decode, ValueSet.variableForm, List.append_assoc, List.append_assoc]
  refine Decoder.Reads.tagged (by decide) fun _ => ?_
  simp only [DictionaryKind.ofCode?_code]
  rw [ValueSet.size, ← List.append_assoc]
  exact (VariableTable.decode_reads ascending size total).bind_last
    fun _ holds => Decoder.Reads.pure ⟨rfl, holds⟩

theorem trieForm_reads (ascending : s.values.Pairwise (· < ·))
    (short : (nodesOf s).length < 2 ^ 32) :
    Decoder.Reads decode s.trieForm fun d => d.kind = .trie ∧ d.Holds s.values := by
  have size := size_le_nodesOf ascending
  rw [decode]
  simp only [ValueSet.trieForm, List.append_assoc]
  refine Decoder.Reads.tagged (by decide) fun _ => ?_
  simp only [DictionaryKind.ofCode?_code]
  rw [ValueSet.size] at size ⊢
  unfold nodesOf at size short
  cases empty : s.isEmpty with
  | true =>
    have none : s.values = [] := List.isEmpty_iff.mp empty
    rw [if_pos rfl, none]
    exact (StoredTrie.decode_reads (by decide) (by decide) (by decide) fun _ _ some =>
      absurd rfl some).bind_last fun _ stands => Decoder.Reads.pure ⟨rfl, stands.holds⟩
  | false =>
    rw [empty, if_neg Bool.false_ne_true] at size short
    rw [if_neg Bool.false_ne_true]
    have some : s.values ≠ [] := fun none => by simp [ValueSet.isEmpty, none] at empty
    have root := (spells_ofSorted ascending some short (View.bytes_ofBytes _)).2
    exact (StoredTrie.decode_reads (by omega) (by omega) short fun region same _ =>
      (spells_ofSorted ascending some short same).1).bind_last
        fun _ stands => Decoder.Reads.pure ⟨rfl, stands.holds⟩

/-- Each written form is read back as the set it was written from. -/
theorem decode_reads {kind : DictionaryKind} (writable : Writable s kind) :
    Decoder.Reads decode (s.form kind) fun d => d.kind = kind ∧ d.Holds s.values := by
  obtain ⟨ascending, uniform, fits⟩ := writable
  cases kind with
  | fixed => exact fixedForm_reads ascending (uniform rfl) fits.1 fits.2
  | varied => exact variableForm_reads ascending fits.1 fits.2
  | trie => exact trieForm_reads ascending fits

end Dictionary

end DocStore
