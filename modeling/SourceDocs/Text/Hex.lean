set_option autoImplicit false

/-! # Hexadecimal text of bytes -/

namespace SourceDocs.Text

/-- The digit of a value below sixteen, letters starting at the character `a`. -/
def hexDigit (a : Char) (n : Nat) : Char :=
  if n < 10 then Char.ofNat (48 + n) else Char.ofNat (a.toNat + (n - 10))

/-- The two lower-case digits of every byte. -/
def hexOfBytes (bytes : List UInt8) : String :=
  String.ofList (bytes.flatMap fun b => [hexDigit 'a' (b.toNat / 16), hexDigit 'a' (b.toNat % 16)])

/-- The value of a lower-case or upper-case digit. -/
def hexValue? (c : Char) : Option Nat :=
  if '0' ≤ c && c ≤ '9' then some (c.toNat - 48)
  else if 'a' ≤ c && c ≤ 'f' then some (c.toNat - 87)
  else if 'A' ≤ c && c ≤ 'F' then some (c.toNat - 55)
  else none

/-- The bytes that pairs of digits stand for. -/
def bytesOfHex? : List Char → Option (List UInt8)
  | [] => some []
  | [_] => none
  | a :: b :: rest => do
    let hi ← hexValue? a
    let lo ← hexValue? b
    let bytes ← bytesOfHex? rest
    return UInt8.ofNat (hi * 16 + lo) :: bytes

end SourceDocs.Text
