import SourceDocs.Path
import SourceDocs.Text.Utf8

set_option autoImplicit false

/-! # File names

A file name is a text, or bytes that are none. The latter are shown with replacement characters. -/

namespace SourceDocs

/-- The name of a file in its directory. -/
inductive FileName where
  | text (s : String)
  /-- Bytes that are not well-formed text. -/
  | raw (bytes : List UInt8)
  deriving DecidableEq

namespace FileName

/-- The name that bytes make. -/
def ofBytes (bytes : List UInt8) : FileName :=
  match Text.decode? ⟨bytes.toArray⟩ with
  | some s => text s
  | none => raw bytes

/-- The name as text. -/
def shown : FileName → String
  | text s => s
  | raw bytes => String.ofList (Text.decodeForgiving bytes)

/-- The segments of a path. -/
def segments (path : String) : List FileName :=
  (Path.segments path).map text

end FileName

end SourceDocs
