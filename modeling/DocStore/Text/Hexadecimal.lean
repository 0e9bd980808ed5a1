/-!
Numbers in hexadecimal digits.
-/

namespace DocStore.Hexadecimal

/-- The digits of a number, filled up with zeros to at least `width`. -/
def digits (width n : Nat) : String :=
  let shortest := Nat.toDigits 16 n
  String.ofList (List.replicate (width - shortest.length) '0' ++ shortest)

end DocStore.Hexadecimal
