import SourceDocs.Xml.Node

set_option autoImplicit false

/-! # Records: elements whose parts have names

The fields of a record are the elements in it, by their local names. Attributes and loose text do
not count, and neither do elements of other names, but all of them have to be readable. -/

namespace SourceDocs.Xml

/-- A name without the part up to its first colon. -/
def localName (name : List Char) : List Char :=
  if name.contains ':' then (name.dropWhile (· ≠ ':')).tail else name

/-- The value of an attribute, whose quotes are left out, and what follows it. -/
def splitValue? (cs : List Char) : Option (List Char × List Char) :=
  match cs.dropWhile isBlank with
  | '"' :: inside => cut? ['"'] inside
  | '\'' :: inside => cut? ['\''] inside
  | _ => none

theorem length_le_of_splitValue? {cs value rest : List Char}
    (h : splitValue? cs = some (value, rest)) : rest.length ≤ cs.length := by
  have hd := (List.dropWhile_suffix (l := cs) isBlank).length_le
  unfold splitValue? at h
  split at h
  · rename_i heq
    have := length_le_of_cut? h
    simp only [heq, List.length_cons] at hd
    omega
  · rename_i heq
    have := length_le_of_cut? h
    simp only [heq, List.length_cons] at hd
    omega
  · simp at h

/-- Whether a character belongs to a key that has begun. -/
def isKeyTail (c : Char) : Bool := c ≠ '=' && !isBlank c

/-- The key of the attribute that begins with some characters, and what follows the attribute. -/
def splitAttribute? (first : Char) (cs : List Char) : Option (List Char × List Char) :=
  match (cs.dropWhile isKeyTail).dropWhile isBlank with
  | '=' :: value => (splitValue? value).map fun (_, rest) => (first :: cs.takeWhile isKeyTail, rest)
  | _ => none

theorem length_le_of_splitAttribute? {first : Char} {cs key rest : List Char}
    (h : splitAttribute? first cs = some (key, rest)) : rest.length ≤ cs.length := by
  have hd := (List.dropWhile_suffix (l := cs.dropWhile isKeyTail) isBlank).length_le
  have hk := (List.dropWhile_suffix (l := cs) isKeyTail).length_le
  unfold splitAttribute? at h
  split at h
  · rename_i heq
    obtain ⟨⟨value, rest'⟩, hs, he⟩ := Option.map_eq_some_iff.1 h
    simp only [Prod.mk.injEq] at he
    obtain ⟨-, rfl⟩ := he
    have := length_le_of_splitValue? hs
    simp only [heq, List.length_cons] at hd
    omega
  · simp at h

/-- Whether characters are attributes, that is, keys with quoted values. No key may come twice or be
one of those seen before. -/
def areAttributes (seen : List (List Char)) (cs : List Char) : Bool :=
  match _h : cs.dropWhile isBlank with
  | [] => true
  | c :: tail =>
    match _h' : splitAttribute? c tail with
    | some (key, rest) => !seen.contains key && areAttributes (key :: seen) rest
    | none => false
  termination_by cs.length
  decreasing_by
    have hd := (List.dropWhile_suffix (l := cs) isBlank).length_le
    have hs := length_le_of_splitAttribute? _h'
    simp only [_h, List.length_cons] at hd
    omega

/-- Whether an element that does not count is readable: where it starts with text, that text. -/
def isReadable : List Node → Bool
  | .text none :: _ => false
  | _ => true

/-- Whether the parts of a record with some fields are readable as far as they do not count. -/
def areReadable (fields : List (List Char)) (parts : List Node) : Bool :=
  parts.all fun
    | .text content => content.isSome
    | .element name _ children => fields.contains (localName name) || isReadable children

/-- The text that an element holds, if it holds nothing else. -/
def textIn? : List Node → Option String
  | [] => some ""
  | [.text (some content)] => some (String.ofList content)
  | _ => none

/-- The contents of the elements with a local name. -/
def fieldsNamed (field : List Char) (parts : List Node) : List (List Node) :=
  parts.filterMap fun
    | .element name _ children => if localName name = field then some children else none
    | .text _ => none

/-- The text of a field that may be absent but not doubled. -/
def optionalText? (field : List Char) (parts : List Node) : Option (Option String) :=
  match fieldsNamed field parts with
  | [] => some none
  | [children] => (textIn? children).map some
  | _ => none

/-- The value of a field that may be absent, as read from its text. -/
def optionalField? {α : Type} (field : List Char) (read : String → Option α)
    (parts : List Node) : Option (Option α) :=
  match optionalText? field parts with
  | some (some s) => (read s).map some
  | some none => some none
  | none => none

/-- Whether a part is an element with a local name. -/
def isField (field : List Char) : Node → Bool
  | .element name _ _ => localName name = field
  | .text _ => false

/-- Whether a part is an element with a name. -/
def isNamed (name : List Char) : Node → Bool
  | .element n _ _ => n = name
  | .text _ => false

/-- The elements of a repeated field. They follow one another directly, under one name, and no text
comes directly after them. -/
def repeatedField? (field : List Char) (parts : List Node) : Option (List Node) :=
  match parts.dropWhile (!isField field ·) with
  | .element name a c :: more =>
    let rest := more.dropWhile (isNamed name)
    match rest with
    | .text _ :: _ => none
    | _ =>
      if rest.any (isField field) then none
      else some (.element name a c :: more.takeWhile (isNamed name))
  | _ => some []

/-! ## Values -/

/-- The truth value that a text stands for. -/
def truth? (s : String) : Option Bool :=
  if ["true", "1", "True", "TRUE", "t", "Yes", "YES", "yes", "y"].contains s then some true
  else if ["false", "0", "False", "FALSE", "f", "No", "NO", "no", "n"].contains s then some false
  else none

/-- The number of at most 64 bits that a text stands for. A plus sign may precede it. -/
def size? (s : String) : Option Nat :=
  let digits :=
    match s.toList with
    | '+' :: digits => digits
    | digits => digits
  (number? 10 digits).bind fun n => if n < Nat.pow 2 64 then some n else none

end SourceDocs.Xml
