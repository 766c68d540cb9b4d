import SourceDocs.Json.Decode
import SourceDocs.Text.Hex
import SourceDocs.Time.Instant

set_option autoImplicit false

/-! # TOML scalars: blanks, strings, numbers, dates

Each reader takes the text left and returns what it read and the text after that, or nothing if the
text is not what the reader is for. -/

namespace SourceDocs.Toml

/-- The value of a field. Numbers with a fraction, dates and times are told apart from all else, but
not from each other's values. -/
inductive Value where
  | string (s : String)
  | integer (n : Int)
  | boolean (b : Bool)
  | float
  | moment
  | array (items : List Value)
  | table (fields : List (String × Value))

/-! ## Blanks -/

/-- Whether `c` is a blank within a line. -/
def isGap (c : Char) : Bool := c = ' ' || c = '\t'

/-- The text after the blanks it starts with. -/
def skipGap (cs : List Char) : List Char := cs.dropWhile isGap

/-- Whether `c` may stand in a comment. -/
def isCommentChar (c : Char) : Bool :=
  c = '\t' || (' ' ≤ c && c ≤ '~') || '\x80' ≤ c

/-- The text after a line end. -/
def newline? : List Char → Option (List Char)
  | '\n' :: rest => some rest
  | '\r' :: '\n' :: rest => some rest
  | _ => none

/-- The text after a comment, if it starts with one. -/
def skipComment : List Char → List Char
  | '#' :: rest => rest.dropWhile isCommentChar
  | cs => cs

/-- The text after the end of a line: blanks, perhaps a comment, and a line end or no more. -/
def lineEnd? (cs : List Char) : Option (List Char) :=
  match skipComment (skipGap cs) with
  | [] => some []
  | cs => newline? cs

/-- The text after blanks, line ends and comments; none if a comment does not end with its line. The
first argument bounds the number of lines. -/
def skipLines? : Nat → List Char → Option (List Char)
  | 0, _ => none
  | fuel + 1, cs =>
    match skipGap cs with
    | '#' :: rest => (newline? (rest.dropWhile isCommentChar)).bind (skipLines? fuel)
    | '\n' :: rest => skipLines? fuel rest
    | '\r' :: rest => (newline? ('\r' :: rest)).bind (skipLines? fuel)
    | cs => some cs

/-! ## Strings -/

/-- The character with a code in hexadecimal digits. -/
def codeChar? (digits : List Char) : Option Char := do
  let values ← digits.mapM Text.hexValue?
  let code := values.foldl (fun n v => n * 16 + v) 0
  if code < 0xD800 || (0xDFFF < code && code < 0x110000) then some (Char.ofNat code) else none

/-- The character that the text after a backslash stands for. -/
def escape? : List Char → Option (Char × List Char)
  | 'u' :: rest =>
    if 4 ≤ rest.length then (codeChar? (rest.take 4)).map fun c => (c, rest.drop 4) else none
  | 'U' :: rest =>
    if 8 ≤ rest.length then (codeChar? (rest.take 8)).map fun c => (c, rest.drop 8) else none
  | c :: rest =>
    match c with
    | 'b' => some ('\x08', rest)
    | 't' => some ('\t', rest)
    | 'n' => some ('\n', rest)
    | 'f' => some ('\x0c', rest)
    | 'r' => some ('\r', rest)
    | '"' => some ('"', rest)
    | '\\' => some ('\\', rest)
    | _ => none
  | [] => none

/-- The rest of a string within one line that may hold escapes, up to its closing quote. -/
def quoted? : Nat → List Char → Option (List Char × List Char)
  | 0, _ => none
  | _ + 1, '"' :: rest => some ([], rest)
  | fuel + 1, '\\' :: rest => do
    let (c, rest) ← escape? rest
    let (cs, rest) ← quoted? fuel rest
    return (c :: cs, rest)
  | fuel + 1, c :: rest =>
    if isCommentChar c then do
      let (cs, rest) ← quoted? fuel rest
      return (c :: cs, rest)
    else none
  | _ + 1, [] => none

/-- The rest of a string within one line without escapes, up to its closing quote. -/
def literal? (cs : List Char) : Option (List Char × List Char) :=
  let body := cs.takeWhile fun c => isCommentChar c && c ≠ '\''
  match cs.drop body.length with
  | '\'' :: rest => some (body, rest)
  | _ => none

/-- The number of quotes a text starts with. -/
def quoteCount (q : Char) (cs : List Char) : Nat := (cs.takeWhile (· = q)).length

/-- The text after a backslash at the end of a line: it goes on with the next character that is no
blank and no line end. -/
def joinedLines? : Nat → List Char → Option (List Char)
  | 0, _ => none
  | fuel + 1, cs =>
    match newline? (skipGap cs) with
    | none => none
    | some rest => some ((joinedLines? fuel rest).getD (skipGap rest))

/-- The rest of a string over several lines, up to its closing quotes. -/
def quotedLines? (q : Char) : Nat → List Char → Option (List Char × List Char)
  | 0, _ => none
  | fuel + 1, cs =>
    match cs with
    | [] => none
    | c :: rest =>
      if c = q then
        let n := quoteCount q cs
        if 3 ≤ n then
          let inner := min (n - 3) 2
          some (List.replicate inner q, cs.drop (inner + 3))
        else do
          let (body, rest) ← quotedLines? q fuel (cs.drop n)
          return (List.replicate n q ++ body, rest)
      else if q = '"' && c = '\\' then
        match joinedLines? cs.length rest with
        | some rest => quotedLines? q fuel rest
        | none => do
          let (c, rest) ← escape? rest
          let (body, rest) ← quotedLines? q fuel rest
          return (c :: body, rest)
      else
        match newline? cs with
        | some rest => do
          let (body, rest) ← quotedLines? q fuel rest
          return ('\n' :: body, rest)
        | none =>
          if isCommentChar c then do
            let (body, rest) ← quotedLines? q fuel rest
            return (c :: body, rest)
          else none

/-- A string over several lines without the line end that it may start with. -/
def afterFirstLine (cs : List Char) : List Char := (newline? cs).getD cs

/-- A string of any form. -/
def string? (cs : List Char) : Option (String × List Char) :=
  let text? (r : Option (List Char × List Char)) := r.map fun r => (String.ofList r.1, r.2)
  match cs with
  | '"' :: '"' :: '"' :: rest => text? (quotedLines? '"' (cs.length + 1) (afterFirstLine rest))
  | '"' :: rest => text? (quoted? (cs.length + 1) rest)
  | '\'' :: '\'' :: '\'' :: rest =>
    text? (quotedLines? '\'' (cs.length + 1) (afterFirstLine rest))
  | '\'' :: rest => text? (literal? rest)
  | _ => none

/-! ## Numbers -/

/-- Whether `c` is an ASCII digit. -/
def isDigit (c : Char) : Bool := '0' ≤ c && c ≤ '9'

/-- Digits of some kind, of which any two may be set apart by an underscore. The flag tells that a
digit has to come next. -/
def digitsFrom? (isDigit : Char → Bool) : Bool → List Char → Option (List Char × List Char)
  | needed, [] => if needed then none else some ([], [])
  | needed, c :: rest =>
    if isDigit c then (digitsFrom? isDigit false rest).map fun r => (c :: r.1, r.2)
    else if needed then none
    else if c = '_' then digitsFrom? isDigit true rest
    else some ([], c :: rest)

/-- At least one digit of some kind, any two perhaps set apart by an underscore. -/
def digits? (isDigit : Char → Bool) (cs : List Char) : Option (List Char × List Char) :=
  digitsFrom? isDigit true cs

/-- The sign a text starts with, and what follows it. -/
def sign : List Char → Bool × List Char
  | '-' :: rest => (true, rest)
  | '+' :: rest => (false, rest)
  | cs => (false, cs)

/-- Decimal digits without a zero before others. -/
def whole? : List Char → Option (List Char × List Char)
  | '0' :: rest => some (['0'], rest)
  | cs => digits? isDigit cs

/-- The value of digits in a base. -/
def valueOf (base : Nat) (ds : List Char) : Nat :=
  ds.foldl (fun n d => n * base + (Text.hexValue? d).getD 0) 0

/-- An integer, if it has 64 bits. -/
def integer? (negative : Bool) (n : Nat) : Option Value :=
  let i : Int := if negative then -n else n
  if -9223372036854775808 ≤ i && i ≤ 9223372036854775807 then some (.integer i) else none

/-- The exponent of a number. -/
def exponent? (cs : List Char) : Option (Int × List Char) := do
  let (negative, cs) := sign cs
  let (ds, cs) ← digits? isDigit cs
  let e : Int := valueOf 10 ds
  return (if negative then -e else e, cs)

/-- A number with a fraction or an exponent, unless it is positive and too large. -/
def float? (negative : Bool) (mantissa : List Char) (places : Nat) (exponent : Int) :
    Option Value :=
  if negative || Json.Decimal.inRange ⟨false, valueOf 10 mantissa, exponent - places⟩ then
    some .float
  else none

/-- A decimal number after its sign. -/
def decimal? (negative : Bool) (cs : List Char) : Option (Value × List Char) := do
  let (ds, cs) ← whole? cs
  match cs with
  | '.' :: rest =>
    let (fraction, rest) ← digits? isDigit rest
    match rest with
    | c :: after =>
      if c = 'e' || c = 'E' then
        let (e, after) ← exponent? after
        return (← float? negative (ds ++ fraction) fraction.length e, after)
      else return (← float? negative (ds ++ fraction) fraction.length 0, rest)
    | [] => return (← float? negative (ds ++ fraction) fraction.length 0, rest)
  | c :: rest =>
    if c = 'e' || c = 'E' then
      let (e, rest) ← exponent? rest
      return (← float? negative ds 0 e, rest)
    else return (← integer? negative (valueOf 10 ds), cs)
  | [] => return (← integer? negative (valueOf 10 ds), cs)

/-- An integer in another base, after what tells the base. -/
def based? (base : Nat) (cs : List Char) : Option (Value × List Char) := do
  let (ds, rest) ← digits? (fun c => (Text.hexValue? c).any (· < base)) cs
  return (← integer? false (valueOf base ds), rest)

/-! ## Dates and times -/

/-- A number of exactly so many digits, between two bounds. -/
def field? (width least most : Nat) (cs : List Char) : Option (Nat × List Char) :=
  let ds := (cs.take width).takeWhile isDigit
  let n := valueOf 10 ds
  if ds.length = width && least ≤ n && n ≤ most then some (n, cs.drop width) else none

/-- The text after a character. -/
def after? (c : Char) : List Char → Option (List Char)
  | d :: rest => if d = c then some rest else none
  | [] => none

/-- The text after a time of day. -/
def time? (cs : List Char) : Option (List Char) := do
  let (_, cs) ← field? 2 0 23 cs
  let cs ← after? ':' cs
  let (_, cs) ← field? 2 0 59 cs
  let cs ← after? ':' cs
  let (_, cs) ← field? 2 0 60 cs
  match cs with
  | '.' :: c :: rest => if isDigit c then return rest.dropWhile isDigit else return cs
  | _ => return cs

/-- The text after the offset of a time, if it starts with one. -/
def offset? (cs : List Char) : Option (List Char) :=
  match cs with
  | [] => some cs
  | c :: rest =>
    if c = 'Z' || c = 'z' then some rest
    else if c = '+' || c = '-' then do
      let (_, rest) ← field? 2 0 23 rest
      let rest ← after? ':' rest
      let (_, rest) ← field? 2 0 59 rest
      return rest
    else some cs

/-- The text after a date, a time or both. -/
def moment? (cs : List Char) : Option (List Char) :=
  match field? 4 0 9999 cs with
  | some (year, '-' :: rest) => do
    let (month, rest) ← field? 2 1 12 rest
    let rest ← after? '-' rest
    let (day, rest) ← field? 2 1 31 rest
    if daysInMonth year month < day then none
    else
      match rest with
      | c :: after =>
        if c = 'T' || c = 't' || c = ' ' then
          match time? after with
          | some after => offset? after
          | none => some rest
        else some rest
      | [] => some rest
  | _ => time? cs

/-- Whether a text starts as a date or a time does. -/
def startsMoment (cs : List Char) : Bool :=
  let ds := cs.takeWhile isDigit
  match cs.drop ds.length with
  | '-' :: _ => 4 ≤ ds.length
  | ':' :: _ => 2 ≤ ds.length
  | _ => false

/-- A number, a date or a time. -/
def number? (cs : List Char) : Option (Value × List Char) :=
  if startsMoment cs then (moment? cs).map fun rest => (.moment, rest)
  else
    match cs with
    | '0' :: 'x' :: rest => based? 16 rest
    | '0' :: 'o' :: rest => based? 8 rest
    | '0' :: 'b' :: rest => based? 2 rest
    | _ =>
      let (negative, rest) := sign cs
      match rest with
      | 'i' :: 'n' :: 'f' :: rest => some (.float, rest)
      | 'n' :: 'a' :: 'n' :: rest => some (.float, rest)
      | _ => decimal? negative rest

end SourceDocs.Toml
