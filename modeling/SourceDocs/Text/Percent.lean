import SourceDocs.Text.Hex
import SourceDocs.Text.Utf8

set_option autoImplicit false

/-! # Percent-encoding

Letters and digits of ASCII and the four marks `-`, `_`, `.` and `~` stand for themselves. Every
other byte of the UTF-8 form is written as `%` and two upper-case digits. -/

namespace SourceDocs.Text

/-- Whether a byte stands for itself. -/
def isUnreserved (b : UInt8) : Bool :=
  (0x41 ≤ b && b ≤ 0x5A) || (0x61 ≤ b && b ≤ 0x7A) || (0x30 ≤ b && b ≤ 0x39) ||
    b = 0x2D || b = 0x5F || b = 0x2E || b = 0x7E

/-- The written form of a byte. -/
def percentByte (b : UInt8) : List Char :=
  if isUnreserved b then [Char.ofNat b.toNat]
  else ['%', hexDigit 'A' (b.toNat / 16), hexDigit 'A' (b.toNat % 16)]

/-- The written form of a text. -/
def percentEncode (s : String) : String :=
  String.ofList ((encode s).flatMap percentByte)

/-- The written forms of the segments of a path, joined by slashes. -/
def percentEncodePath (path : String) : String :=
  "/".intercalate (((path.toList.splitOn '/').map String.ofList).map percentEncode)

end SourceDocs.Text
