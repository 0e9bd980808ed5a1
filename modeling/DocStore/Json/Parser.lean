import DocStore.Json.Tree

/-!
Reading JSON. A text is one value between blanks, and nothing else: no mark in front of it, no
comma before a closing bracket, no leading zero, no bare control character in a text.
-/

namespace DocStore.Json

/-- Whether a character may stand between the parts of a value. -/
def isBlank (c : Char) : Bool := c = ' ' || c = '\n' || c = '\t' || c = '\r'

/-- A text from its first character that is not a blank. -/
def skipBlanks (input : List Char) : List Char := input.dropWhile isBlank

/-- The value of a digit of a base up to sixteen. -/
def digitValue? (base : Nat) (c : Char) : Option Nat :=
  let value :=
    if '0' ≤ c ∧ c ≤ '9' then c.toNat - '0'.toNat
    else if 'a' ≤ c ∧ c ≤ 'f' then c.toNat - 'a'.toNat + 10
    else if 'A' ≤ c ∧ c ≤ 'F' then c.toNat - 'A'.toNat + 10
    else 16
  if value < base then some value else none

def takeDigits : List Char → List Nat × List Char
  | [] => ([], [])
  | c :: rest =>
    match digitValue? 10 c with
    | some digit =>
      let (digits, rest) := takeDigits rest
      (digit :: digits, rest)
    | none => ([], c :: rest)

def someDigits? (input : List Char) : Option (List Nat × List Char) :=
  match takeDigits input with
  | ([], _) => none
  | found => some found

/-- The digits in front of a point: a zero stands alone. -/
def wholeDigits? (input : List Char) : Option (List Nat × List Char) :=
  match someDigits? input with
  | some (0 :: _ :: _, _) => none
  | found => found

def partDigits? : List Char → Option (Option (List Nat) × List Char)
  | '.' :: rest => (someDigits? rest).map fun (digits, rest) => (some digits, rest)
  | input => some (none, input)

/-- The sign and the digits of an exponent, if there is one. -/
def exponentDigits? : List Char → Option (Option (Bool × List Nat) × List Char)
  | c :: rest =>
    if c = 'e' ∨ c = 'E' then
      let (negative, rest) := match rest with
        | '-' :: rest => (true, rest)
        | '+' :: rest => (false, rest)
        | rest => (false, rest)
      (someDigits? rest).map fun (digits, rest) => (some (negative, digits), rest)
    else
      some (none, c :: rest)
  | [] => some (none, [])

/-- A number, and the rest. -/
def numeral? (input : List Char) : Option (Numeral × List Char) := do
  let (negative, input) := match input with
    | '-' :: rest => (true, rest)
    | input => (false, input)
  let (whole, input) ← wholeDigits? input
  let (part, input) ← partDigits? input
  let (exponent, input) ← exponentDigits? input
  return ({ negative, whole, part, exponent }, input)

/-- The character of an escape of one letter. -/
def shortEscape? (c : Char) : Option Char :=
  match c with
  | '"' => some '"'
  | '\\' => some '\\'
  | '/' => some '/'
  | 'b' => some (Char.ofNat 8)
  | 'f' => some (Char.ofNat 12)
  | 'n' => some '\n'
  | 'r' => some '\r'
  | 't' => some '\t'
  | _ => none

/-- The piece of text that a code of four digits stands for. -/
def ofCode (code : Nat) : TextUnit :=
  if 0xD800 ≤ code ∧ code < 0xE000 then .surrogate code else .char (Char.ofNat code)

/-- A text up to its closing quote, and the rest. -/
def textBody? : List Char → Option (List TextUnit × List Char)
  | [] => none
  | '"' :: rest => some ([], rest)
  | '\\' :: 'u' :: a :: b :: c :: d :: rest => do
    let digits ← [a, b, c, d].mapM (digitValue? 16)
    let (units, rest) ← textBody? rest
    return (ofCode (digits.foldl (fun code digit => code * 16 + digit) 0) :: units, rest)
  | '\\' :: c :: rest => do
    let escaped ← shortEscape? c
    let (units, rest) ← textBody? rest
    return (.char escaped :: units, rest)
  | c :: rest =>
    if c.toNat < 0x20 then
      none
    else do
      let (units, rest) ← textBody? rest
      return (.char c :: units, rest)

def afterWord? (word : String) (input : List Char) : Option (List Char) :=
  if word.toList.isPrefixOf input then some (input.drop word.length) else none

mutual

/-- A value, and the rest. Each step down uses one unit of fuel. -/
def value? : Nat → List Char → Option (Tree × List Char)
  | 0, _ => none
  | fuel + 1, input =>
    match skipBlanks input with
    | 'n' :: rest => (afterWord? "ull" rest).map fun rest => (.null, rest)
    | 't' :: rest => (afterWord? "rue" rest).map fun rest => (.bool true, rest)
    | 'f' :: rest => (afterWord? "alse" rest).map fun rest => (.bool false, rest)
    | '"' :: rest => (textBody? rest).map fun (units, rest) => (.text units, rest)
    | '[' :: rest =>
      match skipBlanks rest with
      | ']' :: rest => some (.array [], rest)
      | rest => (items? fuel rest).map fun (items, rest) => (.array items, rest)
    | '\x7b' :: rest =>
      match skipBlanks rest with
      | '\x7d' :: rest => some (.object [], rest)
      | rest => (members? fuel rest).map fun (members, rest) => (.object members, rest)
    | rest => (numeral? rest).map fun (numeral, rest) => (.number numeral, rest)

def items? : Nat → List Char → Option (List Tree × List Char)
  | 0, _ => none
  | fuel + 1, input => do
    let (item, rest) ← value? fuel input
    match skipBlanks rest with
    | ',' :: rest =>
      let (items, rest) ← items? fuel rest
      return (item :: items, rest)
    | ']' :: rest => return ([item], rest)
    | _ => none

def members? : Nat → List Char → Option (List (List TextUnit × Tree) × List Char)
  | 0, _ => none
  | fuel + 1, input => do
    match skipBlanks input with
    | '"' :: rest =>
      let (name, rest) ← textBody? rest
      match skipBlanks rest with
      | ':' :: rest =>
        let (value, rest) ← value? fuel rest
        match skipBlanks rest with
        | ',' :: rest =>
          let (members, rest) ← members? fuel rest
          return ((name, value) :: members, rest)
        | '\x7d' :: rest => return ([(name, value)], rest)
        | _ => none
      | _ => none
    | _ => none

end

/-- The value of a text. Every two steps down consume a character, which bounds the fuel. -/
def parse? (text : String) : Option Tree := do
  let input := text.toList
  let (tree, rest) ← value? (2 * input.length + 2) input
  if (skipBlanks rest).isEmpty then some tree else none

end DocStore.Json
