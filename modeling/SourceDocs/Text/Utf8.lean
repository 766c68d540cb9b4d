set_option autoImplicit false

/-! # UTF-8: strict and forgiving decoding

Strict decoding is the library's own. Forgiving decoding never fails: each longest stretch of bytes
that begins a character but does not finish it, and each byte that begins none, becomes one
replacement character. -/

namespace SourceDocs.Text

/-- The text that bytes encode, if they are well-formed. -/
def decode? (bytes : ByteArray) : Option String :=
  String.fromUTF8? bytes

/-- The bytes of a text. -/
def encode (s : String) : List UInt8 :=
  s.toList.flatMap String.utf8EncodeChar

/-- The character that stands for undecodable bytes. -/
def replacement : Char := '\uFFFD'

/-- Whether `b` continues a character. -/
def isTail (b : UInt8) : Bool := 0x80 ≤ b && b ≤ 0xBF

/-- How many bytes follow `b` in a character that starts with it; `none` if none does. -/
def tailCount? (b : UInt8) : Option Nat :=
  if b < 0x80 then some 0
  else if 0xC2 ≤ b && b ≤ 0xDF then some 1
  else if 0xE0 ≤ b && b ≤ 0xEF then some 2
  else if 0xF0 ≤ b && b ≤ 0xF4 then some 3
  else none

/-- Whether `b` may directly follow the first byte `a` of a character. -/
def mayFollow (a b : UInt8) : Bool :=
  if a = 0xE0 then 0xA0 ≤ b && b ≤ 0xBF
  else if a = 0xED then 0x80 ≤ b && b ≤ 0x9F
  else if a = 0xF0 then 0x90 ≤ b && b ≤ 0xBF
  else if a = 0xF4 then 0x80 ≤ b && b ≤ 0x8F
  else isTail b

/-- The six bits that a continuing byte carries. -/
def tailBits (b : UInt8) : Nat := b.toNat % 64

/-- The text of bytes, with replacement characters where they are not well-formed. -/
def decodeForgiving : List UInt8 → List Char
  | [] => []
  | a :: rest =>
    match tailCount? a with
    | none => replacement :: decodeForgiving rest
    | some 0 => Char.ofNat a.toNat :: decodeForgiving rest
    | some n =>
      match rest with
      | [] => [replacement]
      | b :: rest₁ =>
        if !mayFollow a b then replacement :: decodeForgiving (b :: rest₁)
        else if n = 1 then
          Char.ofNat (a.toNat % 32 * 64 + tailBits b) :: decodeForgiving rest₁
        else
          match rest₁ with
          | [] => [replacement]
          | c :: rest₂ =>
            if !isTail c then replacement :: decodeForgiving (c :: rest₂)
            else if n = 2 then
              Char.ofNat ((a.toNat % 16 * 64 + tailBits b) * 64 + tailBits c) ::
                decodeForgiving rest₂
            else
              match rest₂ with
              | [] => [replacement]
              | d :: rest₃ =>
                if !isTail d then replacement :: decodeForgiving (d :: rest₃)
                else
                  Char.ofNat (((a.toNat % 8 * 64 + tailBits b) * 64 + tailBits c) * 64 +
                    tailBits d) :: decodeForgiving rest₃

/-- The forgiving decoding of bytes, as a text. -/
def forgiving (bytes : ByteArray) : String :=
  String.ofList (decodeForgiving bytes.toList)

end SourceDocs.Text
