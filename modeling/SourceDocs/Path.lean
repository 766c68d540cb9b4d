set_option autoImplicit false

/-! # Slash-separated paths

A path is read as a list of components. Doubled and trailing slashes and a `.` that is not the
first part of a relative path are no components; the root of an absolute path is one of its own. -/

namespace SourceDocs.Path

/-- One component of a path. -/
inductive Component where
  | root
  | here
  | up
  | name (s : String)
  deriving DecidableEq

/-- The text of a component. -/
def Component.text : Component → String
  | root => "/"
  | here => "."
  | up => ".."
  | name s => s

/-- The stretches of `s` between its slashes. -/
def segments (s : String) : List String :=
  (s.toList.splitOn '/').map String.ofList

/-- The segments of `s` that are not empty. -/
def properSegments (s : String) : List String :=
  (segments s).filter (· ≠ "")

/-- The component a segment stands for when it is not the first. -/
def Component.ofSegment? (s : String) : Option Component :=
  if s = "" || s = "." then none else if s = ".." then some up else some (name s)

/-- The components of a path. -/
def components (path : String) : List Component :=
  match segments path with
  | [] => []
  | [""] => []
  | first :: rest =>
    let start : List Component :=
      if first = "" then [.root]
      else if first = "." then [.here]
      else (Component.ofSegment? first).toList
    start ++ rest.filterMap Component.ofSegment?

/-- The component texts joined by slashes; the root of an absolute path counts as one of them. -/
def toSlash (path : String) : String :=
  "/".intercalate ((components path).map Component.text)

/-- The last component, if it is a name. -/
def fileName? (path : String) : Option String :=
  match (components path).getLast? with
  | some (.name s) => some s
  | _ => none

/-- What follows the last dot of a file name, unless that dot is its first character. -/
def nameExtension? (name : String) : Option String :=
  let cs := name.toList
  let tail := (cs.reverse.takeWhile (· ≠ '.')).reverse
  if tail.length + 1 < cs.length then some (String.ofList tail) else none

/-- The extension of the file a path names. -/
def extension? (path : String) : Option String :=
  (fileName? path).bind nameExtension?

/-- Drops the segments at the end of a list that are no components; the first segment stays. -/
def dropIdle (segments : List String) : List String :=
  match segments with
  | [] => []
  | first :: rest => first :: (rest.reverse.dropWhile fun s => s = "" || s = ".").reverse

/-- The path without its last component; nothing lies above the root or the empty path. What is
left is spelled as it was. -/
def parent? (path : String) : Option String :=
  match dropIdle (segments path) with
  | [] => none
  | [""] => none
  | [_] => some ""
  | above =>
    let above := dropIdle above.dropLast
    some (if above = [""] then "/" else "/".intercalate above)

/-- A path below another. -/
def join (above below : String) : String :=
  if above = "" || above.toList.getLast? = some '/' then above ++ below else above ++ "/" ++ below

/-- What precedes the last slash, or nothing. -/
def upToLastSlash (path : String) : String :=
  let cs := path.toList
  if cs.contains '/' then String.ofList (cs.reverse.dropWhile (· ≠ '/')).tail.reverse else ""

end SourceDocs.Path
