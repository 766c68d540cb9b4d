import SourceDocs.Text.Blank

set_option autoImplicit false

/-! # Scripted answers

A script answers texts by rules. The first rule counts that the text contains the pattern of and
that has not been used up for this very text. -/

namespace SourceDocs

/-- One rule of a script. -/
structure Rule (α : Type) where
  contains : String
  /-- How often the rule is used for one text; without bound if absent. -/
  times : Option Nat := none
  answer : α

/-- A script and the uses of its rules so far. -/
structure Script (α : Type) where
  rules : List (Rule α)
  /-- The number of the rule and the text of every use. -/
  uses : List (Nat × String) := []

namespace Script

variable {α : Type}

/-- Whether a text contains a pattern. -/
def occursIn (pattern : List Char) : List Char → Bool
  | [] => pattern.isEmpty
  | c :: cs => pattern.isPrefixOf (c :: cs) || occursIn pattern cs

/-- Whether the rule with a number answers a text. -/
def applies (s : Script α) (number : Nat) (rule : Rule α) (text : String) : Bool :=
  occursIn rule.contains.toList text.toList &&
    match rule.times with
    | none => true
    | some n => s.uses.count (number, text) < n

/-- The answer to a text and the script after it; none if no rule answers. -/
def pick? (s : Script α) (text : String) : Option (α × Script α) :=
  (s.rules.zipIdx.find? fun r => s.applies r.2 r.1 text).map fun r =>
    (r.1.answer, { s with uses := (r.2, text) :: s.uses })

/-- What is answered where no rule answers: the first line and the length in bytes. -/
def echo (text : String) : String :=
  "doc<" ++ String.ofList ((Text.firstLine? text.toList).getD []) ++ "|" ++
    toString text.utf8ByteSize ++ ">"

end Script

end SourceDocs
