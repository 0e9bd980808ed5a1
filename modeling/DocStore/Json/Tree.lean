import DocStore.Json.Numeral

/-!
JSON as a tree. Numbers keep the way they are written, and texts may hold escaped surrogates
that stand for no character alone; members of an object keep their order and their repeats.
-/

namespace DocStore.Json

/-- A piece of a written text. -/
inductive TextUnit where
  | char (c : Char)
  /-- Half a character, from an escape of four digits. -/
  | surrogate (code : Nat)
deriving DecidableEq, Repr

/-- The character of two surrogates that belong together. -/
def joinSurrogates? (high low : Nat) : Option Char :=
  if 0xD800 ≤ high ∧ high < 0xDC00 ∧ 0xDC00 ≤ low ∧ low < 0xE000 then
    some (Char.ofNat (0x10000 + (high - 0xD800) * 0x400 + (low - 0xDC00)))
  else
    none

/-- The characters of a written text, unless half of one stands alone. -/
def characters? : List TextUnit → Option (List Char)
  | [] => some []
  | .char c :: rest => (characters? rest).map (c :: ·)
  | .surrogate high :: .surrogate low :: rest => do
    let c ← joinSurrogates? high low
    return c :: (← characters? rest)
  | .surrogate _ :: _ => none

/-- The text of written pieces. -/
def text? (units : List TextUnit) : Option String := (characters? units).map String.ofList

/-- A JSON value. -/
inductive Tree where
  | null
  | bool (value : Bool)
  | number (numeral : Numeral)
  | text (units : List TextUnit)
  | array (items : List Tree)
  | object (members : List (List TextUnit × Tree))

end DocStore.Json
