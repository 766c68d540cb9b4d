import SourceDocs.Json
import SourceDocs.Text.Hex

set_option autoImplicit false

/-! # Reading JSON text

`Json.parse?` accepts exactly the JSON grammar: one value, blanks around tokens, nothing after it.
A reader takes the text left and returns what it read and the text after that. Nesting is bounded
only by the length of the text. -/

namespace SourceDocs.Json

/-- The text without the blanks it starts with. -/
def skipBlanks (cs : List Char) : List Char :=
  cs.dropWhile fun c => c == ' ' || c == '\n' || c == '\r' || c == '\t'

/-! ## Strings -/

/-- The value of four hexadecimal digits. -/
def hexWord? (a b c d : Char) : Option Nat := do
  let a ← Text.hexValue? a
  let b ← Text.hexValue? b
  let c ← Text.hexValue? c
  let d ← Text.hexValue? d
  return ((a * 16 + b) * 16 + c) * 16 + d

/-- The character that a backslash and `c` stand for. -/
def escaped? (c : Char) : Option Char :=
  match c with
  | '"' => some '"'
  | '\\' => some '\\'
  | '/' => some '/'
  | 'b' => some '\x08'
  | 'f' => some '\x0c'
  | 'n' => some '\n'
  | 'r' => some '\r'
  | 't' => some '\t'
  | _ => none

/-- One unit of a string: a character, or a 16-bit word from an escape. -/
inductive Unit where
  | char (c : Char)
  | word (n : Nat)

/-- The units of a string up to its closing quote, and what follows that. -/
def readUnits : List Char → Option (List Unit × List Char)
  | '"' :: rest => some ([], rest)
  | '\\' :: 'u' :: a :: b :: c :: d :: rest => do
    let n ← hexWord? a b c d
    let (us, rest) ← readUnits rest
    return (.word n :: us, rest)
  | '\\' :: c :: rest => do
    let c ← escaped? c
    let (us, rest) ← readUnits rest
    return (.char c :: us, rest)
  | c :: rest =>
    if c.toNat < 32 then none
    else do
      let (us, rest) ← readUnits rest
      return (.char c :: us, rest)
  | [] => none

/-- Whether `n` is the first half of a surrogate pair. -/
def isHighHalf (n : Nat) : Bool := 0xD800 ≤ n && n < 0xDC00

/-- Whether `n` is the second half of a surrogate pair. -/
def isLowHalf (n : Nat) : Bool := 0xDC00 ≤ n && n < 0xE000

/-- The text that units stand for, unless a surrogate is without its other half. -/
def unitsText? : List Unit → Option (List Char)
  | [] => some []
  | .char c :: us => (unitsText? us).map (c :: ·)
  | .word hi :: .word lo :: us =>
    if isHighHalf hi then
      if isLowHalf lo then
        (unitsText? us).map (Char.ofNat (0x10000 + (hi - 0xD800) * 0x400 + (lo - 0xDC00)) :: ·)
      else none
    else if isLowHalf hi then none
    else (unitsText? (.word lo :: us)).map (Char.ofNat hi :: ·)
  | .word n :: us =>
    if isHighHalf n || isLowHalf n then none else (unitsText? us).map (Char.ofNat n :: ·)

/-! ## Numbers -/

/-- Whether `c` is an ASCII digit. -/
def isDigit (c : Char) : Bool := '0' ≤ c && c ≤ '9'

/-- The number that digits stand for, after `n`. -/
def digitsValue (n : Nat) (ds : List Char) : Nat :=
  ds.foldl (fun n d => n * 10 + (d.toNat - 48)) n

/-- The digits a text starts with, at least one, and what follows them. -/
def readDigits? (cs : List Char) : Option (List Char × List Char) :=
  match cs.takeWhile isDigit with
  | [] => none
  | d :: ds => some (d :: ds, cs.dropWhile isDigit)

/-- The digits before the point: a zero alone, or digits that start with none. -/
def readWhole? (cs : List Char) : Option (List Char × List Char) :=
  match cs with
  | '0' :: rest => some (['0'], rest)
  | _ => readDigits? cs

/-- The exponent a text starts with, if it starts with one; `none` if one is begun and broken. -/
def readExponent? (cs : List Char) : Option (Option Int × List Char) :=
  match cs with
  | e :: rest =>
    if e = 'e' || e = 'E' then
      let (negative, rest) : Bool × List Char :=
        match rest with
        | '-' :: r => (true, r)
        | '+' :: r => (false, r)
        | r => (false, r)
      match readDigits? rest with
      | none => none
      | some (ds, rest) =>
        let n : Int := digitsValue 0 ds
        some (some (if negative then -n else n), rest)
    else some (none, cs)
  | [] => some (none, cs)

/-- A number without its sign. -/
def readMagnitude? (negative : Bool) (cs : List Char) : Option (Json × List Char) := do
  let (whole, rest) ← readWhole? cs
  let (fraction, rest) ←
    match rest with
    | '.' :: r => (readDigits? r).map fun (ds, r) => (some ds, r)
    | r => some (none, r)
  let (exponent, rest) ← readExponent? rest
  match negative, fraction, exponent with
  | false, none, none => return (nat (digitsValue 0 whole), rest)
  | _, _, _ =>
    let ds := fraction.getD []
    return (decimal ⟨negative, digitsValue (digitsValue 0 whole) ds,
      exponent.getD 0 - (ds.length : Int)⟩, rest)

/-- A number. -/
def readNumber? (cs : List Char) : Option (Json × List Char) :=
  match cs with
  | '-' :: rest => readMagnitude? true rest
  | _ => readMagnitude? false cs

/-! ## Values -/

/-- The rest of `cs` after the word `w`. -/
def afterWord? (w : List Char) (cs : List Char) : Option (List Char) :=
  if w.isPrefixOf cs then some (cs.drop w.length) else none

/-- An object from fields whose names may stand for nothing. -/
def ofFields (fields : List (Option String × Json)) : Json :=
  match fields.mapM fun f => f.1.map fun name => (name, f.2) with
  | some fields => object fields
  | none => garbled

mutual

/-- One value, with blanks before it. -/
def readValue? : Nat → List Char → Option (Json × List Char)
  | 0, _ => none
  | fuel + 1, cs =>
    match skipBlanks cs with
    | '"' :: rest => do
      let (us, rest) ← readUnits rest
      match unitsText? us with
      | some t => return (string (String.ofList t), rest)
      | none => return (garbled, rest)
    | '[' :: rest =>
      match skipBlanks rest with
      | ']' :: rest => some (array [], rest)
      | _ => do
        let (v, rest) ← readValue? fuel rest
        let (vs, rest) ← readItems? fuel rest
        return (array (v :: vs), rest)
    | '{' :: rest =>
      match skipBlanks rest with
      | '}' :: rest => some (object [], rest)
      | _ => do
        let (f, rest) ← readField? fuel rest
        let (fs, rest) ← readFields? fuel rest
        return (ofFields (f :: fs), rest)
    | 't' :: rest => (afterWord? "rue".toList rest).map fun rest => (bool true, rest)
    | 'f' :: rest => (afterWord? "alse".toList rest).map fun rest => (bool false, rest)
    | 'n' :: rest => (afterWord? "ull".toList rest).map fun rest => (null, rest)
    | rest => readNumber? rest

/-- The items after the first of an array, closing bracket included. -/
def readItems? : Nat → List Char → Option (List Json × List Char)
  | 0, _ => none
  | fuel + 1, cs =>
    match skipBlanks cs with
    | ']' :: rest => some ([], rest)
    | ',' :: rest => do
      let (v, rest) ← readValue? fuel rest
      let (vs, rest) ← readItems? fuel rest
      return (v :: vs, rest)
    | _ => none

/-- One field of an object. -/
def readField? : Nat → List Char → Option ((Option String × Json) × List Char)
  | 0, _ => none
  | fuel + 1, cs =>
    match skipBlanks cs with
    | '"' :: rest => do
      let (us, rest) ← readUnits rest
      match skipBlanks rest with
      | ':' :: rest => do
        let (v, rest) ← readValue? fuel rest
        return (((unitsText? us).map String.ofList, v), rest)
      | _ => none
    | _ => none

/-- The fields after the first of an object, closing brace included. -/
def readFields? : Nat → List Char → Option (List (Option String × Json) × List Char)
  | 0, _ => none
  | fuel + 1, cs =>
    match skipBlanks cs with
    | '}' :: rest => some ([], rest)
    | ',' :: rest => do
      let (f, rest) ← readField? fuel rest
      let (fs, rest) ← readFields? fuel rest
      return (f :: fs, rest)
    | _ => none

end

/-- The value a list of characters stands for. -/
def parseChars? (cs : List Char) : Option Json :=
  match readValue? (cs.length + 1) cs with
  | some (v, rest) => if (skipBlanks rest).isEmpty then some v else none
  | none => none

/-- The value a text stands for. -/
def parse? (s : String) : Option Json :=
  parseChars? s.toList

end SourceDocs.Json
