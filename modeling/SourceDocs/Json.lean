import SourceDocs.Text.Hex

set_option autoImplicit false

/-! # JSON values and their text

A `Json` value keeps the fields of an object in order, repeated names included. `Json.write` gives
the text of a value in one of two layouts: without any blanks, or indented by two spaces a level.
A value read from text may be `garbled`: grammatical, but standing for nothing, because an escape
in it names half of a surrogate pair. Such a value can only be passed over. -/

namespace SourceDocs

/-- A number that is not written as a natural number: `± mantissa · 10 ^ exponent`. -/
structure Decimal where
  negative : Bool
  mantissa : Nat
  exponent : Int
  deriving DecidableEq

/-- A JSON value. -/
inductive Json where
  | null
  | bool (b : Bool)
  | nat (n : Nat)
  | decimal (d : Decimal)
  | string (s : String)
  | array (items : List Json)
  | object (fields : List (String × Json))
  /-- Grammatical text without a value. -/
  | garbled

namespace Json

/-- How the parts of a value are set apart. -/
inductive Layout where
  | compact
  | indented

/-- What stands before an item at nesting level `depth`. -/
def Layout.break (l : Layout) (depth : Nat) : List Char :=
  match l with
  | compact => []
  | indented => '\n' :: List.replicate (2 * depth) ' '

/-- What stands between a name and its value. -/
def Layout.colon : Layout → List Char
  | compact => [':']
  | indented => [':', ' ']

/-- A character as it stands between the quotes of a string. -/
def escapeChar (c : Char) : List Char :=
  if c = '"' then ['\\', '"']
  else if c = '\\' then ['\\', '\\']
  else if c = '\n' then ['\\', 'n']
  else if c = '\r' then ['\\', 'r']
  else if c = '\t' then ['\\', 't']
  else if c = '\x08' then ['\\', 'b']
  else if c = '\x0c' then ['\\', 'f']
  else if c.toNat < 32 then
    ['\\', 'u', '0', '0', Text.hexDigit 'a' (c.toNat / 16),
      Text.hexDigit 'a' (c.toNat % 16)]
  else [c]

/-- The text of a string, quotes included. -/
def writeText (s : String) : List Char :=
  '"' :: (s.toList.flatMap escapeChar ++ ['"'])

/-- The text of a number that is no natural number. -/
def writeDecimal (d : Decimal) : List Char :=
  (if d.negative then ['-'] else []) ++ (toString d.mantissa).toList ++
    'e' :: (toString d.exponent).toList

mutual

/-- The text of a value at nesting level `depth`. -/
def write (l : Layout) (depth : Nat) : Json → List Char
  | null => "null".toList
  | bool true => "true".toList
  | bool false => "false".toList
  | nat n => (toString n).toList
  | decimal d => writeDecimal d
  | string s => writeText s
  | array [] => ['[', ']']
  | array (v :: vs) =>
    '[' :: (l.break (depth + 1) ++ write l (depth + 1) v ++ writeItems l depth vs)
  | object [] => ['{', '}']
  | object ((k, v) :: fs) =>
    '{' :: (l.break (depth + 1) ++ writeText k ++ l.colon ++ write l (depth + 1) v ++
      writeFields l depth fs)
  | garbled => "null".toList

/-- The text of the items after the first of an array, closing bracket included. -/
def writeItems (l : Layout) (depth : Nat) : List Json → List Char
  | [] => l.break depth ++ [']']
  | v :: vs => ',' :: (l.break (depth + 1) ++ write l (depth + 1) v ++ writeItems l depth vs)

/-- The text of the fields after the first of an object, closing brace included. -/
def writeFields (l : Layout) (depth : Nat) : List (String × Json) → List Char
  | [] => l.break depth ++ ['}']
  | (k, v) :: fs =>
    ',' :: (l.break (depth + 1) ++ writeText k ++ l.colon ++ write l (depth + 1) v ++
      writeFields l depth fs)

end

/-- The text of a value without blanks. -/
def compactText (j : Json) : String :=
  String.ofList (j.write .compact 0)

/-- The text of a value over several lines, indented. -/
def indentedText (j : Json) : String :=
  String.ofList (j.write .indented 0)

/-! ## Field order -/

mutual

/-- The value with the fields of every object in the order of their names. -/
def sorted : Json → Json
  | array items => array (sortedItems items)
  | object fields => object ((sortedFields fields).mergeSort fun a b => a.1 ≤ b.1)
  | v => v

/-- The items of an array, each with sorted fields. -/
def sortedItems : List Json → List Json
  | [] => []
  | v :: vs => sorted v :: sortedItems vs

/-- The fields of an object, with sorted fields in each. -/
def sortedFields : List (String × Json) → List (String × Json)
  | [] => []
  | (k, v) :: fs => (k, sorted v) :: sortedFields fs

end

/-! ## Values from Lean data -/

/-- An array of strings. -/
def strings (ss : List String) : Json :=
  array (ss.map string)

/-- The value of an option, with `null` for none. -/
def ofOption {α : Type} (f : α → Json) : Option α → Json
  | none => null
  | some a => f a

/-- A field that stands only if it has a value. -/
def optionalField {α : Type} (name : String) (f : α → Json) : Option α → List (String × Json)
  | none => []
  | some a => [(name, f a)]

mutual

/-- The number of nested arrays and objects a value consists of at its deepest place. -/
def nesting : Json → Nat
  | array items => nestingItems items + 1
  | object fields => nestingFields fields + 1
  | _ => 0

/-- The deepest nesting among some items. -/
def nestingItems : List Json → Nat
  | [] => 0
  | v :: vs => max (nesting v) (nestingItems vs)

/-- The deepest nesting among some fields. -/
def nestingFields : List (String × Json) → Nat
  | [] => 0
  | (_, v) :: fs => max (nesting v) (nestingFields fs)

end

end Json

end SourceDocs
