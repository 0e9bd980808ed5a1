import DocStore.Proofs.Json.Texts
import DocStore.Proofs.Keyed

/-! Log lines read back. A line is one JSON object and a line break at its end; whatever its
texts hold, a reader of JSON finds its members as they were given, in the order of the line. -/
namespace DocStore.LogLine

open Json

variable {severity : Severity} {event : String} {fields others : List LogField}

theorem skipBlanks_of_shown {c : Char} (shown : isBlank c = false) (rest : List Char) :
    skipBlanks (c :: rest) = c :: rest := by
  rw [skipBlanks, List.dropWhile_cons_of_neg (by simp [shown])]

/-- A written text is a value, whatever follows it. -/
theorem value?_jsonText (fuel : Nat) (text : String) (rest : List Char) :
    value? (fuel + 1) (jsonText text ++ rest) = some (.text (unitsOf text), rest) := by
  have written : jsonText text ++ rest = '"' :: (text.toList.flatMap escapedChar ++ '"' :: rest) := by
    simp [jsonText]
  rw [written, value?, skipBlanks_of_shown (by decide)]
  simp only [textBody?_written]
  rfl

def memberOf (field : LogField) : List TextUnit × Tree :=
  (unitsOf field.1, .text (unitsOf field.2))

/-- A written member is read as it is, and what follows it decides how to go on. -/
theorem members?_member (fuel : Nat) (field : LogField) (rest : List Char) :
    members? (fuel + 2) (member field.1 field.2 ++ rest) = match skipBlanks rest with
      | ',' :: rest => (members? (fuel + 1) rest).map fun (others, rest) =>
          (memberOf field :: others, rest)
      | '\x7d' :: rest => some ([memberOf field], rest)
      | _ => none := by
  have opened : member field.1 field.2 ++ rest =
      '"' :: (field.1.toList.flatMap escapedChar ++ '"' :: ':' :: (jsonText field.2 ++ rest)) := by
    simp [member, jsonText]
  rw [opened, members?, skipBlanks_of_shown (by decide)]
  simp only [textBody?_written, Option.bind_eq_bind, Option.bind_some,
    skipBlanks_of_shown (show isBlank ':' = false by decide), value?_jsonText]
  -- Only the character after the member matters from here on.
  generalize skipBlanks rest = next
  split
  · rename_i later
    change _ = Option.map _ (members? (fuel + 1) later)
    cases members? (fuel + 1) later <;> rfl
  · rfl
  · simp_all

def written (fields : List LogField) : List Char :=
  [','].intercalate (fields.map fun (key, value) => member key value)

theorem written_cons_cons (field next : LogField) (fields : List LogField) :
    written (field :: next :: fields) =
      member field.1 field.2 ++ ',' :: written (next :: fields) := by
  simp [written, List.intercalate_cons_cons]

/-- Written members read back, up to the closing brace. -/
theorem members?_written {fuel : Nat} {field : LogField} (rest : List Char)
    (enough : fields.length ≤ fuel) :
    members? (fuel + 2) (written (field :: fields) ++ '\x7d' :: rest) =
      some ((field :: fields).map memberOf, rest) := by
  -- An object without members is read by another rule, so the induction starts at one.
  induction fields generalizing fuel field with
  | nil =>
    have alone : written [field] = member field.1 field.2 := by simp [written]
    rw [alone, members?_member, skipBlanks_of_shown (by decide)]
    rfl
  | cons next fields ih =>
    cases fuel with
    | zero => contradiction
    | succ fuel =>
      have later := @ih fuel next (Nat.le_of_succ_le_succ enough)
      rw [written_cons_cons, List.append_assoc, members?_member, List.cons_append,
        skipBlanks_of_shown (by decide)]
      simp only [later]
      rfl

theorem length_le_written (fields : List LogField) : fields.length ≤ (written fields).length := by
  induction fields with
  | nil => exact Nat.zero_le _
  | cons field fields ih =>
    cases fields with
    | nil => simp [written, member, jsonText]
    | cons next fields =>
      rw [written_cons_cons]
      simp only [List.length_cons, List.length_append] at ih ⊢
      omega

theorem written_cons (field : LogField) (fields : List LogField) :
    ∃ tail, written (field :: fields) = '"' :: tail := by
  cases fields with
  | nil => exact ⟨_, by simp [written, member, jsonText]; rfl⟩
  | cons next fields => exact ⟨_, by rw [written_cons_cons]; simp [member, jsonText]; rfl⟩

/-- Members between braces are an object, whatever follows it. -/
theorem value?_object {fuel : Nat} {field : LogField} (rest : List Char)
    (enough : fields.length ≤ fuel) :
    value? (fuel + 3) ('\x7b' :: (written (field :: fields) ++ '\x7d' :: rest)) =
      some (.object ((field :: fields).map memberOf), rest) := by
  obtain ⟨tail, opened⟩ := written_cons field fields
  have read : members? (fuel + 2) (written (field :: fields) ++ '\x7d' :: rest) = _ :=
    members?_written rest enough
  rw [opened, List.cons_append] at read ⊢
  rw [value?, skipBlanks_of_shown (by decide)]
  simp only [skipBlanks_of_shown (show isBlank '"' = false by decide)]
  change (members? (fuel + 2) ('"' :: (tail ++ '\x7d' :: rest))).map _ = _
  rw [read]
  rfl

theorem toList_render : (render severity event fields).toList =
    '\x7b' :: (written (members severity event fields) ++ '\x7d' :: ['\n']) := by
  simp [render, written]

/-- A line is an object of its members. -/
theorem parse?_render : parse? (render severity event fields) =
    some (.object ((members severity event fields).map memberOf)) := by
  -- The reader takes its fuel from the length of the line, and each member is longer than a turn.
  have length := length_le_written (members severity event fields)
  obtain ⟨fuel, needed, enough⟩ : ∃ fuel,
      2 * (render severity event fields).toList.length + 2 = fuel + 3 ∧
        (("severity", severity.name) :: sortFields fields).length ≤ fuel := by
    refine ⟨2 * (render severity event fields).toList.length - 1, ?_, ?_⟩
    all_goals
      rw [toList_render]
      simp only [members, List.length_cons, List.length_append] at length ⊢
      omega
  have read : value? (fuel + 3) (render severity event fields).toList =
      some (.object ((members severity event fields).map memberOf), ['\n']) := by
    rw [toList_render]
    exact value?_object ['\n'] enough
  unfold parse?
  simp only [needed, read]
  rfl

def fieldOf? : List TextUnit × Tree → Option LogField
  | (name, .text value) => do return (← text? name, ← text? value)
  | _ => none

/-- The members of a line that is an object of texts, in their order. -/
def read? (line : String) : Option (List LogField) := do
  match ← parse? line with
  | .object members => members.mapM fieldOf?
  | _ => none

theorem fieldOf?_memberOf (field : LogField) : fieldOf? (memberOf field) = some field := by
  simp [fieldOf?, memberOf, text?_unitsOf]

theorem read?_render :
    read? (render severity event fields) = some (members severity event fields) := by
  have fieldsOf : ∀ fields : List LogField, (fields.map memberOf).mapM fieldOf? = some fields := by
    intro fields
    induction fields with
    | nil => rfl
    | cons field fields ih => simp [fieldOf?_memberOf, ih]
  simp [read?, parse?_render, fieldsOf]

theorem newline_not_mem_jsonText (text : String) : '\n' ∉ jsonText text := by
  simp [jsonText, newline_not_mem_escapedChar]

theorem newline_not_mem_written (fields : List LogField) : '\n' ∉ written fields := by
  induction fields with
  | nil => simp [written]
  | cons field fields ih =>
    have own : '\n' ∉ member field.1 field.2 := by simp [member, newline_not_mem_jsonText]
    cases fields with
    | nil => simpa [written] using own
    | cons next fields => simpa [written_cons_cons, own] using ih

/-- The fields in the order of their keys, and those of one key in the order they were given. -/
structure StablySorted (given sorted : List LogField) : Prop where
  ascending : sorted.Pairwise fun a b => a.1 ≤ b.1
  same : sorted.Perm given
  stable : ∀ key, sorted.filter (·.1 = key) = given.filter (·.1 = key)

theorem stablySorted_sortFields (fields : List LogField) :
    StablySorted fields (sortFields fields) where
  ascending := pairwise_mergeSort_fst fields
  same := List.mergeSort_perm _ _
  stable := filter_mergeSort_fst fields

/-- Lines are equal just when they say the same of each key in the same order. -/
theorem render_eq_iff {severity' : Severity} {event' : String} :
    render severity' event' others = render severity event fields ↔
      severity' = severity ∧ event' = event ∧
        ∀ key, others.filter (·.1 = key) = fields.filter (·.1 = key) := by
  constructor
  · intro same
    have read := congrArg read? same
    simp only [read?_render, members, Option.some.injEq, List.cons.injEq, Prod.mk.injEq,
      true_and] at read
    obtain ⟨rfl, names, sorted⟩ := read
    have severities := congrArg Severity.ofName? names
    simp only [Severity.ofName?_name, Option.some.injEq] at severities
    refine ⟨severities, rfl, fun key => ?_⟩
    rw [← (stablySorted_sortFields others).stable, sorted, (stablySorted_sortFields fields).stable]
  · rintro ⟨rfl, rfl, same⟩
    have sorted : sortFields others = sortFields fields :=
      eq_of_filter_fst (stablySorted_sortFields others).ascending
        (stablySorted_sortFields fields).ascending fun key => by
          rw [(stablySorted_sortFields others).stable, same, (stablySorted_sortFields fields).stable]
    simp only [render, members, sorted]

/-- A line has one line break, at its end. It is a JSON object that reads back as the event, the
severity and then the fields in the order of their keys, texts and all; and it is the same line
for fields that only differ in the order of distinct keys. -/
theorem render_recoverable (severity : Severity) (event : String) (fields : List LogField) :
    (∃ object : String, render severity event fields = object ++ "\n" ∧ '\n' ∉ object.toList) ∧
      (∃ sorted, StablySorted fields sorted ∧ read? (render severity event fields) =
        some (("event", event) :: ("severity", severity.name) :: sorted)) ∧
      (∀ severity' event' others,
        render severity' event' others = render severity event fields ↔
          severity' = severity ∧ event' = event ∧
            ∀ key, others.filter (·.1 = key) = fields.filter (·.1 = key)) ∧
      ∀ others, others.Perm fields → (fields.map Prod.fst).Nodup →
        render severity event others = render severity event fields := by
  refine ⟨?_, ⟨_, stablySorted_sortFields fields, read?_render⟩, fun _ _ _ => render_eq_iff,
    fun others reordered distinct => ?_⟩
  · refine ⟨.ofList ('\x7b' :: (written (members severity event fields) ++ ['\x7d'])), ?_, ?_⟩
    · apply String.toList_inj.mp
      simp [toList_render]
    · simp [newline_not_mem_written]
  · exact render_eq_iff.mpr ⟨rfl, rfl, filter_fst_of_perm reordered distinct⟩

end DocStore.LogLine
