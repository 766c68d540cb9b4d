set_option autoImplicit false

/-! # Blank characters: Unicode white space, trimming, lines

`Text.isBlank` is the Unicode property `White_Space`. Everything in the library that trims text,
skips blanks in a pattern or reads an instant leniently uses this one set. A line ends at a line
feed; a carriage return directly before that line feed belongs to the line ending. -/

namespace SourceDocs.Text

/-- Whether `c` has the Unicode property `White_Space` (25 characters). -/
def isBlank (c : Char) : Bool :=
  let n := c.toNat
  (9 ≤ n && n ≤ 13) || n == 0x20 || n == 0x85 || n == 0xA0 || n == 0x1680 ||
    (0x2000 ≤ n && n ≤ 0x200A) || n == 0x2028 || n == 0x2029 || n == 0x202F ||
    n == 0x205F || n == 0x3000

/-- `cs` without the blanks it starts with. -/
def trimStart (cs : List Char) : List Char :=
  cs.dropWhile isBlank

/-- `cs` without the blanks it ends with. -/
def trimEnd (cs : List Char) : List Char :=
  (cs.reverse.dropWhile isBlank).reverse

/-- `s` without the blanks at either end. -/
def trim (s : String) : String :=
  String.ofList (trimEnd (trimStart s.toList))

/-- The first line of `cs` without its line ending, or `none` if `cs` is empty. -/
def firstLine? (cs : List Char) : Option (List Char) :=
  match cs with
  | [] => none
  | _ =>
    let line := cs.takeWhile (· ≠ '\n')
    if line.length = cs.length then some line
    else if line.getLast? = some '\r' then some line.dropLast
    else some line

end SourceDocs.Text
