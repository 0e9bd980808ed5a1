import Mathlib.Data.List.Induction
import Mathlib.Data.List.Pairwise
import Mathlib.Data.List.Perm.Basic
import DocStore.Build.Document
import DocStore.Proofs.Outcomes

/-! Documents that are set up part by part. Which parts may stand together does not depend on
their order, and neither do the values and the payload of the document that they make. -/
namespace DocStore.Document

variable {d : Document} {parts others : List Part} {part : Part}

def Built (d : Document) : Prop := ∃ parts, ofParts parts = .ok d

/-- The values of a field in one document are indexed alike, and a sortable field has one. -/
def Coherent (d : Document) : Prop :=
  d.fields.Pairwise fun x y => x.name = y.name → x.indexing = y.indexing ∧
    x.indexing.isSortable = false

theorem coherent_symm {x y : FieldEntry}
    (alike : x.name = y.name → x.indexing = y.indexing ∧ x.indexing.isSortable = false) :
    y.name = x.name → y.indexing = x.indexing ∧ y.indexing.isSortable = false := by
  intro same
  obtain ⟨equal, plain⟩ := alike same.symm
  exact ⟨equal.symm, equal ▸ plain⟩

theorem Coherent.eq_or_alike (coherent : d.Coherent) {x y : FieldEntry} (first : x ∈ d.fields)
    (second : y ∈ d.fields) (same : x.name = y.name) :
    x = y ∨ x.indexing = y.indexing ∧ x.indexing.isSortable = false := by
  have symm : Std.Symm fun x y : FieldEntry => x.name = y.name → x.indexing = y.indexing ∧
      x.indexing.isSortable = false := ⟨fun _ _ => coherent_symm⟩
  by_cases equal : x = y
  · exact Or.inl equal
  · exact Or.inr (List.Pairwise.forall coherent first second equal same)

theorem Coherent.alike (coherent : d.Coherent) {x y : FieldEntry} (first : x ∈ d.fields)
    (second : y ∈ d.fields) (same : x.name = y.name) : x.indexing = y.indexing := by
  rcases coherent.eq_or_alike first second same with rfl | ⟨alike, _⟩
  · rfl
  · exact alike

theorem Coherent.eq_of_sortable (coherent : d.Coherent) {x y : FieldEntry} (first : x ∈ d.fields)
    (second : y ∈ d.fields) (same : x.name = y.name) (sortable : x.indexing.isSortable = true) :
    x = y := by
  rcases coherent.eq_or_alike first second same with equal | ⟨_, plain⟩
  · exact equal
  · rw [plain] at sortable
    contradiction

/-- One more value goes with those of its field when they are indexed alike, and not for
sorting. The first value of the field speaks for all of them. -/
theorem problem?_eq_none (coherent : d.Coherent) {name : String} {indexing : Indexing} :
    d.problem? name indexing = none ↔
      ∀ x ∈ d.fields, x.name = name → x.indexing = indexing ∧ x.indexing.isSortable = false := by
  cases found : d.fields.find? (·.name = name) with
  | none =>
    have absent : ∀ x ∈ d.fields, x.name ≠ name := by simpa using found
    simp only [problem?, found, Option.bind_none, true_iff]
    exact fun x inside same => absurd same (absent x inside)
  | some first =>
    have named : first.name = name := by simpa using List.find?_some found
    have listed := List.mem_of_find?_eq_some found
    simp only [problem?, found, Option.bind_some]
    constructor
    · intro accepted x inside same
      rw [coherent.alike inside listed (same.trans named.symm)]
      split at accepted
      · contradiction
      · rename_i declared
        have declared : first.indexing = indexing := by simpa using declared
        split at accepted
        · contradiction
        · rename_i plain
          exact ⟨declared, declared ▸ by simpa using plain⟩
    · intro fits
      obtain ⟨rfl, plain⟩ := fits first listed named
      simp [plain]

def Part.entry? : Part → Option FieldEntry
  | field name value indexing => some ⟨name, value.encode, indexing⟩
  | payload _ => none

def Part.payload? : Part → Option Bytes
  | field _ _ _ => none
  | payload own => some own

def assembled (parts : List Part) : Document :=
  ⟨parts.filterMap Part.entry?, (parts.filterMap Part.payload?).head?⟩

/-- Parts that may stand together: every field has a name, its values go with each other, and
there is one payload at most. -/
structure Settable (parts : List Part) : Prop where
  named : ∀ x ∈ (assembled parts).fields, x.name.isEmpty = false
  coherent : (assembled parts).Coherent
  once : (parts.filterMap Part.payload?).length ≤ 1

theorem settable_nil : Settable [] where
  named _ none := absurd none List.not_mem_nil
  coherent := List.Pairwise.nil
  once := Nat.zero_le 1

theorem Settable.of_sublist (settable : Settable parts) (fewer : others.Sublist parts) :
    Settable others where
  named x inside := settable.named x ((fewer.filterMap Part.entry?).subset inside)
  coherent := List.Pairwise.sublist (fewer.filterMap Part.entry?) settable.coherent
  once := Nat.le_trans (fewer.filterMap Part.payload?).length_le settable.once

section Steps

variable {name : String} {value : Value} {indexing : Indexing} {payload : Bytes}

theorem assembled_field : assembled (parts ++ [.field name value indexing]) =
    ⟨(assembled parts).fields ++ [⟨name, value.encode, indexing⟩], (assembled parts).payload⟩ := by
  simp [assembled, Part.entry?, Part.payload?]

theorem assembled_payload (none : (assembled parts).payload = none) :
    assembled (parts ++ [.payload payload]) = ⟨(assembled parts).fields, some payload⟩ := by
  have before : parts.filterMap Part.payload? = [] := List.head?_eq_none_iff.mp none
  simp [assembled, Part.entry?, Part.payload?, before]

theorem settable_field (settable : Settable parts) :
    Settable (parts ++ [.field name value indexing]) ↔
      name.isEmpty = false ∧ (assembled parts).problem? name indexing = none := by
  rw [problem?_eq_none settable.coherent]
  constructor
  · rintro ⟨named, coherent, _⟩
    rw [assembled_field] at named coherent
    have pairs := List.pairwise_append.mp coherent
    have last := List.mem_singleton_self (⟨name, value.encode, indexing⟩ : FieldEntry)
    refine ⟨named _ (List.mem_append_right _ last), fun x inside same => ?_⟩
    exact pairs.2.2 x inside _ last same
  · rintro ⟨named, fits⟩
    refine ⟨?_, ?_, by simpa [List.filterMap_cons, Part.payload?] using settable.once⟩
    · rw [assembled_field]
      intro x inside
      rcases List.mem_append.mp inside with before | last
      · exact settable.named x before
      · cases List.mem_singleton.mp last
        exact named
    · rw [assembled_field]
      refine List.pairwise_append.mpr ⟨settable.coherent, List.pairwise_singleton _ _, ?_⟩
      intro x inside y last same
      cases List.mem_singleton.mp last
      exact fits x inside same

theorem settable_payload (settable : Settable parts) :
    Settable (parts ++ [.payload payload]) ↔ (assembled parts).payload = none := by
  have count : ((parts ++ [Part.payload payload]).filterMap Part.payload?).length =
      (parts.filterMap Part.payload?).length + 1 := by
    simp [Part.payload?]
  have fields : (assembled (parts ++ [.payload payload])).fields = (assembled parts).fields := by
    simp [assembled, Part.entry?]
  constructor
  · intro whole
    have once := count ▸ whole.once
    exact List.head?_eq_none_iff.mpr (List.length_eq_zero_iff.mp (by omega))
  · intro none
    have before := List.length_eq_zero_iff.mpr (List.head?_eq_none_iff.mp none)
    refine ⟨fields ▸ settable.named, ?_, by omega⟩
    rw [Coherent, fields]
    exact settable.coherent

end Steps

/-- A part is accepted just if it may stand with those before it. -/
theorem withPart_eq_ok (settable : Settable parts) :
    (assembled parts).withPart part = .ok d ↔
      Settable (parts ++ [part]) ∧ d = assembled (parts ++ [part]) := by
  cases part with
  | field name value indexing =>
    rw [settable_field settable, assembled_field]
    cases empty : name.isEmpty <;> cases known : (assembled parts).problem? name indexing <;>
      simp [withPart, withField, empty, known, eq_comm]
  | payload payload =>
    rw [settable_payload settable]
    cases known : (assembled parts).payload with
    | some earlier => simp [withPart, withPayload, known]
    | none => simp [withPart, withPayload, known, assembled_payload known, eq_comm]

/-- A document can be set up from some parts just if they may stand together. -/
theorem ofParts_eq_ok : ofParts parts = .ok d ↔ Settable parts ∧ d = assembled parts := by
  induction parts using List.reverseRecOn generalizing d with
  | nil =>
    have start : ofParts [] = .ok (assembled []) := rfl
    simp [start, settable_nil, eq_comm]
  | append_singleton before part ih =>
    have step : ofParts (before ++ [part]) = ofParts before >>= fun d =>
        (d.withPart part).mapError (before.length, ·) := by
      simp [ofParts, List.zipIdx_append, -pure_eq_ok]
    simp only [step, bind_eq_ok, mapError_eq_ok, ih]
    constructor
    · rintro ⟨_, ⟨settable, rfl⟩, accepted⟩
      exact (withPart_eq_ok settable).mp accepted
    · rintro ⟨settable, rfl⟩
      have earlier := settable.of_sublist (List.sublist_append_left before [part])
      exact ⟨_, ⟨earlier, rfl⟩, (withPart_eq_ok earlier).mpr ⟨settable, rfl⟩⟩

theorem coherent_of_built (built : d.Built) : d.Coherent := by
  obtain ⟨parts, set⟩ := built
  obtain ⟨settable, rfl⟩ := ofParts_eq_ok.mp set
  exact settable.coherent

structure Reordered (d d' : Document) : Prop where
  fields : d.fields.Perm d'.fields
  payload : d.payload = d'.payload

theorem Reordered.symm {d' : Document} (reordered : d.Reordered d') : d'.Reordered d :=
  ⟨reordered.fields.symm, reordered.payload.symm⟩

theorem Reordered.coherent {d' : Document} (reordered : d.Reordered d') (coherent : d.Coherent) :
    d'.Coherent :=
  (reordered.fields.pairwise_iff coherent_symm).mp coherent

theorem Settable.reordered (settable : Settable parts) (shuffled : parts.Perm others) :
    Settable others ∧ (assembled parts).Reordered (assembled others) := by
  have fields := shuffled.filterMap Part.entry?
  have payloads := shuffled.filterMap Part.payload?
  have alike : parts.filterMap Part.payload? = others.filterMap Part.payload? := by
    rcases Nat.le_one_iff_eq_zero_or_eq_one.mp settable.once with none | one
    · rw [List.length_eq_zero_iff.mp none] at payloads ⊢
      exact (List.nil_perm.mp payloads).symm
    · obtain ⟨payload, one⟩ := List.length_eq_one_iff.mp one
      rw [one] at payloads ⊢
      exact List.singleton_perm.mp payloads
  have same : (assembled parts).Reordered (assembled others) := ⟨fields, congrArg List.head? alike⟩
  exact ⟨⟨fun x inside => settable.named x (fields.mem_iff.mpr inside),
    same.coherent settable.coherent, alike ▸ settable.once⟩, same⟩

/-- With its parts in another order, a document can be set up just as before. -/
theorem ofParts_reordered (shuffled : parts.Perm others) :
    (∃ e e', ofParts parts = .error e ∧ ofParts others = .error e') ∨
    ∃ d d', ofParts parts = .ok d ∧ ofParts others = .ok d' ∧ d.Reordered d' := by
  have failing : ∀ {parts : List Part}, ¬ Settable parts → ∃ e, ofParts parts = .error e := by
    intro parts unsettable
    cases set : ofParts parts with
    | error e => exact ⟨e, rfl⟩
    | ok d => exact absurd (ofParts_eq_ok.mp set).1 unsettable
  by_cases settable : Settable parts
  · obtain ⟨settable', same⟩ := settable.reordered shuffled
    exact Or.inr ⟨_, _, ofParts_eq_ok.mpr ⟨settable, rfl⟩, ofParts_eq_ok.mpr ⟨settable', rfl⟩, same⟩
  · obtain ⟨e, failed⟩ := failing settable
    obtain ⟨e', failed'⟩ := failing fun settable' =>
      settable (settable'.reordered shuffled.symm).1
    exact Or.inl ⟨e, e', failed, failed'⟩

end DocStore.Document
