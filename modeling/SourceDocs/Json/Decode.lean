import SourceDocs.Json.Reader

set_option autoImplicit false

/-! # Decoding JSON values into domain types

A record is read from an object by field name, or from an array by position. In an object the order
of fields is free, unknown fields are passed over and a repeated known field is an error; in an
array fields may be missing only at the end. Values that nest deeper than `maxNesting` are refused
where nesting is part of the type. -/

namespace SourceDocs.Json

/-- The deepest nesting that is read where a type nests without bound. -/
def maxNesting : Nat := 127

/-- The largest number of 64 bits. -/
def maxWord64 : Nat := Nat.pow 2 64 - 1

/-- The largest number of 32 bits. -/
def maxWord32 : Nat := Nat.pow 2 32 - 1

/-- A text. -/
def text? : Json → Option String
  | string s => some s
  | _ => none

/-- A natural number up to `bound`. -/
def natUpTo? (bound : Nat) : Json → Option Nat
  | nat n => if n ≤ bound then some n else none
  | _ => none

/-- A list whose items are all readable. -/
def list? {α : Type} (item : Json → Option α) : Json → Option (List α)
  | array items => items.mapM item
  | _ => none

/-- A value that may be absent: `null` is absent too. -/
def optional? {α : Type} (item : Json → Option α) : Option Json → Option (Option α)
  | none => some none
  | some null => some none
  | some j => (item j).map some

/-- The values under `name`, in order. -/
def fieldValues (fields : List (String × Json)) (name : String) : List Json :=
  fields.filterMap fun f => if f.1 = name then some f.2 else none

/-- The value under `name`, or none; an error if there are several. -/
def field? (fields : List (String × Json)) (name : String) : Option (Option Json) :=
  match fieldValues fields name with
  | [] => some none
  | [v] => some (some v)
  | _ => none

/-- The values of the fields of a record, in the order of `names`. -/
def record? (names : List String) : Json → Option (List (Option Json))
  | object fields => names.mapM (field? fields)
  | array items =>
    if items.length ≤ names.length then
      some (items.map some ++ List.replicate (names.length - items.length) none)
    else none
  | _ => none

/-- One of several named alternatives without content: its name, or an object that holds `null`
under that name. -/
def variant? : Json → Option String
  | string s => some s
  | object [(name, null)] => some name
  | _ => none

/-- The fields of an object that is read as a map. -/
def entries? {α : Type} (item : Json → Option α) : Json → Option (List (String × α))
  | object fields => fields.mapM fun f => (item f.2).map fun v => (f.1, v)
  | _ => none

/-! ## Values of no particular type -/

/-- Whether a number is below the largest 64-bit float plus half its last place. -/
def Decimal.inRange (d : Decimal) : Bool :=
  let digits : Int := (Nat.toDigits 10 d.mantissa).length
  let limit : Nat := Nat.pow 2 1024 - Nat.pow 2 970
  if d.mantissa = 0 || digits + d.exponent < 300 then true
  else if digits + d.exponent > 320 then false
  else if 0 ≤ d.exponent then decide (d.mantissa * Nat.pow 10 d.exponent.toNat < limit)
  else decide (d.mantissa < limit * Nat.pow 10 (-d.exponent).toNat)

mutual

/-- Whether every part of a value is readable: no garbled text, no number out of range. -/
def readable : Json → Bool
  | garbled => false
  | nat n => Decimal.inRange ⟨false, n, 0⟩
  | decimal d => Decimal.inRange d
  | array items => readableItems items
  | object fields => readableFields fields
  | _ => true

/-- Whether all items are readable. -/
def readableItems : List Json → Bool
  | [] => true
  | v :: vs => readable v && readableItems vs

/-- Whether the values of all fields are readable. -/
def readableFields : List (String × Json) → Bool
  | [] => true
  | (_, v) :: fs => readable v && readableFields fs

end

/-- The value of a text of which nothing is passed over. -/
def parseWhole? (s : String) : Option Json := do
  let j ← parse? s
  if j.readable && j.nesting ≤ maxNesting then some j else none

/-- The value under `name`; of several the last. -/
def get? (name : String) : Json → Option Json
  | object fields => (fieldValues fields name).getLast?
  | _ => none

/-- The item at `index`. -/
def item? (index : Nat) : Json → Option Json
  | array items => items[index]?
  | _ => none

end SourceDocs.Json
