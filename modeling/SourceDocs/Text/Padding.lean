set_option autoImplicit false

/-! # Padding: texts filled up to a width -/

namespace SourceDocs.Text

/-- `cs` with fill characters before it up to a width. -/
def padLeft (fill : Char) (width : Nat) (cs : List Char) : List Char :=
  List.replicate (width - cs.length) fill ++ cs

/-- `cs` with fill characters after it up to a width. -/
def padRight (fill : Char) (width : Nat) (cs : List Char) : List Char :=
  cs ++ List.replicate (width - cs.length) fill

/-- The decimal digits of a number, with fill characters before them up to a width. -/
def padNumber (fill : Char) (width n : Nat) : List Char :=
  padLeft fill width (toString n).toList

end SourceDocs.Text
