import SourceDocs.Text.Blank
import SourceDocs.Time.Instant

set_option autoImplicit false

/-! # Reading instants

Both readers accept every written form (`Instant.text`) and local times with an offset.
`Instant.parse?` is relaxed: numbers need not be padded, years may have a sign and any number of
digits, blanks may stand around each part, and the offset may be `UTC` or lack its colon.
`Instant.parseStrict?` wants every number in full width and nothing between the parts. Digits of a
fraction after the ninth are passed over. -/

namespace SourceDocs.Instant

open Text (trimStart)

/-- Whether `c` is an ASCII digit. -/
def isDigit (c : Char) : Bool := '0' ≤ c && c ≤ '9'

/-- The number that digits stand for. -/
def valueOf (ds : List Char) : Nat :=
  ds.foldl (fun n d => n * 10 + (d.toNat - 48)) 0

/-- The number a text starts with, of at least `least` and at most `most` digits, and the rest. -/
def number? (least most : Nat) (cs : List Char) : Option (Nat × List Char) :=
  let ds := (cs.take most).takeWhile isDigit
  if least ≤ ds.length then some (valueOf ds, cs.drop ds.length) else none

/-- The rest of a text after one character. -/
def after? (c : Char) : List Char → Option (List Char)
  | d :: rest => if c = d then some rest else none
  | [] => none

/-- The rest of a text after what stands between a date and a time. -/
def afterDate? : List Char → Option (List Char)
  | c :: rest => if c = 'T' || c = 't' || c = ' ' then some rest else none
  | [] => none

/-- The fraction of a second a text starts with, in nanoseconds, and the rest. -/
def fraction? (cs : List Char) : Option (Nat × List Char) :=
  match cs with
  | '.' :: rest =>
    let ds := (rest.take 9).takeWhile isDigit
    if ds.isEmpty then none
    else some (valueOf ds * Nat.pow 10 (9 - ds.length), rest.dropWhile isDigit)
  | _ => some (0, cs)

/-- The offset a text starts with, in minutes, and the rest. What may stand between its hours and
its minutes is passed over by `afterHours?`. -/
def offset? (afterHours? : List Char → Option (List Char)) (cs : List Char) :
    Option (Int × List Char) :=
  match cs with
  | [] => none
  | c :: rest =>
    if c = 'Z' || c = 'z' then some (0, rest)
    else if c = '+' || c = '-' || c = '\u2212' then do
      let (hours, rest) ← number? 2 2 rest
      let rest ← afterHours? rest
      let (minutes, rest) ← number? 2 2 rest
      if hours < 24 && minutes < 60 then
        let total : Int := (hours * 60 + minutes : Nat)
        return (if c = '+' then total else -total, rest)
      else none
    else none

/-- The instant of local fields and an offset. -/
def assemble? (year : Int) (month day hour minute second nanosecond : Nat) (offset : Int) :
    Option Instant := do
  let date ← Date.of? year month day
  let shown ← ofWritten? date hour minute second nanosecond
  ofLocal? shown offset

/-! ## Relaxed -/

/-- A year with blanks before it: up to four digits, or a sign and any number of digits. -/
def relaxedYear? (cs : List Char) : Option (Int × List Char) :=
  match trimStart cs with
  | '-' :: rest => (number? 1 rest.length rest).map fun (n, rest) => (-(n : Int), rest)
  | '+' :: rest => (number? 1 rest.length rest).map fun (n, rest) => ((n : Int), rest)
  | rest => (number? 1 4 rest).map fun (n, rest) => ((n : Int), rest)

/-- A number of one or two digits with blanks before it. -/
def relaxedNumber? (cs : List Char) : Option (Nat × List Char) :=
  number? 1 2 (trimStart cs)

/-- The rest of a text after a separator with blanks before it. -/
def afterBlanks? (c : Char) (cs : List Char) : Option (List Char) :=
  after? c (trimStart cs)

/-- An offset or the word `UTC`. -/
def relaxedOffset? (cs : List Char) : Option (Int × List Char) :=
  match cs with
  | u :: t :: c :: rest =>
    if u.toUpper = 'U' && t.toUpper = 'T' && c.toUpper = 'C' then some (0, rest)
    else offset? (fun r => some (r.dropWhile fun c => c = ':' || Text.isBlank c)) cs
  | _ => offset? (fun r => some (r.dropWhile fun c => c = ':' || Text.isBlank c)) cs

/-- The instant a text stands for, with some freedom of form. -/
def parse? (s : String) : Option Instant := do
  let (year, cs) ← relaxedYear? s.toList
  let cs ← afterBlanks? '-' cs
  let (month, cs) ← relaxedNumber? cs
  let cs ← afterBlanks? '-' cs
  let (day, cs) ← relaxedNumber? cs
  let cs ← afterDate? cs
  let (hour, cs) ← relaxedNumber? cs
  let cs ← afterBlanks? ':' cs
  let (minute, cs) ← relaxedNumber? cs
  let cs ← afterBlanks? ':' cs
  let (second, cs) ← relaxedNumber? cs
  let (nanosecond, cs) ← fraction? cs
  let (offset, cs) ← relaxedOffset? (trimStart cs)
  if (trimStart cs).isEmpty then
    assemble? year month day hour minute second nanosecond offset
  else none

/-! ## Strict -/

/-- The instant a text stands for, with every part in full width. -/
def parseStrict? (s : String) : Option Instant := do
  let (year, cs) ← number? 4 4 s.toList
  let cs ← after? '-' cs
  let (month, cs) ← number? 2 2 cs
  let cs ← after? '-' cs
  let (day, cs) ← number? 2 2 cs
  let cs ← afterDate? cs
  let (hour, cs) ← number? 2 2 cs
  let cs ← after? ':' cs
  let (minute, cs) ← number? 2 2 cs
  let cs ← after? ':' cs
  let (second, cs) ← number? 2 2 cs
  let (nanosecond, cs) ← fraction? cs
  let (offset, cs) ← offset? (after? ':') cs
  if cs.isEmpty then assemble? year month day hour minute second nanosecond offset else none

end SourceDocs.Instant
