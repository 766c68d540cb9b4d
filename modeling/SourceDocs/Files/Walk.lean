import SourceDocs.Files.Name
import SourceDocs.Time.Instant

set_option autoImplicit false

/-! # Directories as a walk finds them

A `WalkNode` is what a walk over a directory finds under a name. A walk either follows symbolic
links, and then finds what they lead to, or it does not, and then finds them to be neither file nor
directory. -/

namespace SourceDocs

/-- What a walk finds under a name. -/
inductive WalkNode where
  | file (content : ByteArray) (modified : Instant)
  | directory (entries : List (FileName × WalkNode))
  /-- Neither a file nor a directory. -/
  | other
  /-- A link that leads nowhere or back to a directory above it. -/
  | broken

/-- The entries of a directory. -/
abbrev WalkTree := List (FileName × WalkNode)

end SourceDocs
