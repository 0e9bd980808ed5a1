import DocStore.Journal.Line
import DocStore.Json.Parser

/-! Written texts read back. Hexadecimal digits spell their number, every character of a text has
one written form that no other text starts with, and no form holds a line break. -/
namespace DocStore

namespace Json

def spell (digits : List Nat) : Nat := digits.foldl (fun code digit => code * 16 + digit) 0

def Spelled (written : List Char) (n : Nat) : Prop :=
  ∃ digits : List Nat, written = digits.map Nat.digitChar ∧ (∀ digit ∈ digits, digit < 16) ∧
    spell digits = n

theorem digitChar_reads {digit : Nat} (single : digit < 16) :
    digitValue? 16 digit.digitChar = some digit ∧ digit.digitChar ≠ '\n' := by
  revert digit
  decide

theorem Spelled.reads {written : List Char} {n : Nat} (spelled : Spelled written n) :
    ∃ digits, written.mapM (digitValue? 16) = some digits ∧ spell digits = n := by
  obtain ⟨digits, rfl, single, same⟩ := spelled
  refine ⟨digits, ?_, same⟩
  clear same
  induction digits with
  | nil => rfl
  | cons digit digits ih =>
    obtain ⟨first, others⟩ := List.forall_mem_cons.mp single
    rw [List.map_cons, List.mapM_cons, (digitChar_reads first).1, ih others]
    rfl

theorem Spelled.newline_not_mem {written : List Char} {n : Nat} (spelled : Spelled written n) :
    '\n' ∉ written := by
  obtain ⟨digits, rfl, single, _⟩ := spelled
  intro inside
  obtain ⟨digit, listed, same⟩ := List.mem_map.mp inside
  exact (digitChar_reads (single digit listed)).2 same

theorem Spelled.append_digit {written : List Char} {n digit : Nat} (spelled : Spelled written n)
    (single : digit < 16) : Spelled (written ++ [digit.digitChar]) (n * 16 + digit) := by
  obtain ⟨digits, rfl, each, rfl⟩ := spelled
  refine ⟨digits ++ [digit], by simp, fun other listed => ?_, by simp [spell]⟩
  rcases List.mem_append.mp listed with before | last
  · exact each other before
  · exact List.mem_singleton.mp last ▸ single

theorem Spelled.zeros {written : List Char} {n : Nat} (spelled : Spelled written n) (count : Nat) :
    Spelled (List.replicate count '0' ++ written) n := by
  induction count with
  | zero => exact spelled
  | succ count ih =>
    obtain ⟨digits, same, each, rfl⟩ := ih
    refine ⟨0 :: digits, ?_, List.forall_mem_cons.mpr ⟨by decide, each⟩, by simp [spell]⟩
    rw [List.replicate_succ, List.cons_append, same]
    rfl

theorem spelled_toDigits (n : Nat) : Spelled (Nat.toDigits 16 n) n := by
  induction n using Nat.strongRecOn with
  | ind n ih =>
    by_cases single : n < 16
    · rw [Nat.toDigits_of_lt_base single]
      exact ⟨[n], rfl, by simpa using single, by simp [spell]⟩
    · have shorter := (ih (n / 16) (by omega)).append_digit (Nat.mod_lt n (by decide))
      rwa [Nat.div_add_mod', ← Nat.toDigits_of_base_le (by decide) (Nat.le_of_not_lt single)]
        at shorter

theorem spelled_digits (width n : Nat) : Spelled (Hexadecimal.digits width n).toList n := by
  simpa [Hexadecimal.digits] using (spelled_toDigits n).zeros _

theorem length_digits {width n : Nat} (fits : (Nat.toDigits 16 n).length ≤ width) :
    (Hexadecimal.digits width n).toList.length = width := by
  simp [Hexadecimal.digits, Nat.sub_add_cancel fits]

def prepend (unit : TextUnit) (read : List TextUnit × List Char) : List TextUnit × List Char :=
  (unit :: read.1, read.2)

theorem textBody?_short {escape c : Char} (meant : shortEscape? escape = some c)
    (rest : List Char) :
    textBody? ('\\' :: escape :: rest) = (textBody? rest).map (prepend (.char c)) := by
  have other : escape ≠ 'u' := by
    rintro rfl
    contradiction
  rw [textBody?, meant]
  · cases textBody? rest <;> rfl
  · exact fun _ _ _ _ _ same _ => other same

theorem textBody?_code {written : List Char} {code : Nat} (four : written.length = 4)
    (spelled : Spelled written code) (rest : List Char) :
    textBody? ('\\' :: 'u' :: (written ++ rest)) =
      (textBody? rest).map (prepend (ofCode code)) := by
  obtain ⟨digits, read, rfl⟩ := spelled.reads
  match written with
  | [a, b, c, d] =>
    simp only [List.cons_append, List.nil_append]
    rw [textBody?, read]
    cases textBody? rest <;> rfl

theorem textBody?_plain {c : Char} (quote : c ≠ '"') (slash : c ≠ '\\') (shown : 0x20 ≤ c.toNat)
    (rest : List Char) : textBody? (c :: rest) = (textBody? rest).map (prepend (.char c)) := by
  rw [textBody?, if_neg (Nat.not_lt_of_le shown)]
  · cases textBody? rest <;> rfl
  · exact quote
  · exact fun _ _ _ _ _ same _ => slash same
  · exact fun _ _ same _ => slash same

/-- A character by its code, where that is no surrogate. -/
theorem ofCode_toNat {c : Char} (low : c.toNat < 0xD800) : ofCode c.toNat = .char c := by
  rw [ofCode, if_neg (by omega), Char.ofNat_toNat]

def unitsOf (text : String) : List TextUnit := text.toList.map .char

theorem text?_unitsOf (text : String) : text? (unitsOf text) = some text := by
  have read : ∀ chars : List Char, characters? (chars.map .char) = some chars := fun chars => by
    induction chars with
    | nil => rfl
    | cons c rest ih => simp [characters?, ih]
  simp [text?, unitsOf, read]

end Json

namespace LogLine

open Json

theorem spelled_control {c : Char} (control : isControl c = true) :
    c.toNat < 0xA0 ∧ (Hexadecimal.digits 4 c.toNat).toList.length = 4 := by
  have low : c.toNat < 0xA0 := by
    simp only [isControl, Bool.or_eq_true, Bool.and_eq_true, decide_eq_true_eq] at control
    omega
  have fits : (Nat.toDigits 16 c.toNat).length ≤ 4 :=
    (Nat.length_toDigits_le_iff (by decide) (by decide)).mpr (by omega)
  exact ⟨low, length_digits fits⟩

/-- A written character reads back as itself, whatever follows it. -/
theorem textBody?_escapedChar (c : Char) (rest : List Char) :
    textBody? (escapedChar c ++ rest) = (textBody? rest).map (prepend (.char c)) := by
  fun_cases escapedChar c with
  | case1 quote =>
    subst quote
    exact textBody?_short rfl rest
  | case2 _ slash =>
    subst slash
    exact textBody?_short rfl rest
  | case3 _ _ feed =>
    subst feed
    exact textBody?_short rfl rest
  | case4 _ _ _ back =>
    subst back
    exact textBody?_short rfl rest
  | case5 _ _ _ _ tab =>
    subst tab
    exact textBody?_short rfl rest
  | case6 _ _ _ _ _ control =>
    obtain ⟨low, four⟩ := spelled_control control
    have read := textBody?_code four (spelled_digits 4 c.toNat) rest
    rwa [ofCode_toNat (by omega)] at read
  | case7 quote slash _ _ _ shown =>
    have high : 0x20 ≤ c.toNat := by
      simp only [isControl, Bool.or_eq_true, Bool.and_eq_true, decide_eq_true_eq] at shown
      omega
    exact textBody?_plain quote slash high rest

theorem newline_not_mem_escapedChar (c : Char) : '\n' ∉ escapedChar c := by
  fun_cases escapedChar c with
  | case1 | case2 | case3 | case4 | case5 => decide
  | case6 => simpa using (spelled_digits 4 c.toNat).newline_not_mem
  | case7 _ _ feed => simpa using Ne.symm feed

/-- A written text reads back as its characters, up to its closing quote. -/
theorem textBody?_written (chars rest : List Char) :
    textBody? (chars.flatMap escapedChar ++ '"' :: rest) = some (chars.map .char, rest) := by
  induction chars with
  | nil => rw [List.flatMap_nil, List.nil_append, textBody?]; rfl
  | cons c chars ih =>
    rw [List.flatMap_cons, List.append_assoc, textBody?_escapedChar, ih]
    rfl

end LogLine

end DocStore
