import SourceDocs.Text.Utf8

set_option autoImplicit false

/-! # Globs: patterns over whole paths

A glob is a list of tokens that has to account for every byte of a path. `?` stands for one byte and
`*` for any bytes, slashes among them; `**` as a whole path component stands for any number of
components. A class is a set of bytes, so a character above ASCII in a class counts as its bytes. An
alternative that is empty is no alternative. -/

namespace SourceDocs

namespace Glob

/-- One piece of a glob. -/
inductive Token where
  | literal (c : Char)
  /-- One byte. -/
  | any
  /-- Any bytes. -/
  | star
  /-- Nothing, or anything up to and including a slash. -/
  | deepStart
  /-- A slash and anything. -/
  | deepEnd
  /-- A slash, or a stretch from slash to slash. -/
  | deepMiddle
  /-- One byte of a set, or one that is not in it. -/
  | oneOf (negated : Bool) (ranges : List (Char × Char))
  /-- One of several token lists. -/
  | choice (branches : List (List Token))

/-- Why a text is no glob. -/
inductive Cause where
  | unclosedClass
  | invalidRange (low high : Char)
  | unopenedGroup
  | unclosedGroup
  | danglingEscape
  deriving DecidableEq

/-- A text that is no glob, and why. -/
structure Error where
  glob : String
  cause : Cause
  deriving DecidableEq

/-- The wording of a cause. -/
def Cause.message : Cause → String
  | unclosedClass => "unclosed character class; missing ']'"
  | invalidRange low high => s!"invalid range; '{low}' > '{high}'"
  | unopenedGroup =>
    "unopened alternate group; missing '\x7b' (maybe escape '\x7d' with '[\x7d]'?)"
  | unclosedGroup =>
    "unclosed alternate group; missing '\x7d' (maybe escape '\x7b' with '[\x7b]'?)"
  | danglingEscape => "dangling '\\'"

/-- The wording of an error. -/
def Error.message (e : Error) : String :=
  "error parsing glob '" ++ e.glob ++ "': " ++ e.cause.message

/-! ## Reading -/

/-- Adds a character to the last range of a class, as its upper end. -/
def closeRange (ranges : List (Char × Char)) (high : Char) :
    Except Cause (List (Char × Char)) :=
  match ranges with
  | [] => .ok [(high, high)]
  | (low, _) :: rest =>
    if high < low then .error (.invalidRange low high) else .ok ((low, high) :: rest)

/-- The ranges of a class (last first) up to its closing bracket, and the text after that. -/
def readRanges (first inRange : Bool) (ranges : List (Char × Char)) :
    List Char → Except Cause (List (Char × Char) × List Char)
  | [] => .error .unclosedClass
  | c :: rest =>
    if c = ']' && !first then
      .ok (if inRange then ('-', '-') :: ranges else ranges, rest)
    else if c = '-' && !first && !inRange then readRanges false true ranges rest
    else if inRange && c ≠ ']' then do
      let ranges ← closeRange ranges c
      readRanges false false ranges rest
    else readRanges false false ((c, c) :: ranges) rest

/-- A class, after its opening bracket. -/
def readClass (cs : List Char) : Except Cause (Token × List Char) := do
  let (negated, cs) : Bool × List Char :=
    match cs with
    | '!' :: rest => (true, rest)
    | '^' :: rest => (true, rest)
    | _ => (false, cs)
  let (ranges, rest) ← readRanges true false [] cs
  return (.oneOf negated ranges.reverse, rest)

/-- A group under construction: the finished branches and the tokens of the current one, both last
first. The outermost level is a group of one branch. -/
structure Group where
  branches : List (List Token) := []
  tokens : List Token := []

/-- The group with one more token in its current branch. -/
def Group.push (g : Group) (t : Token) : Group :=
  { g with tokens := t :: g.tokens }

/-- The group as a token. -/
def Group.toToken (g : Group) : Token :=
  .choice ((g.tokens :: g.branches).reverse.map List.reverse)

/-- Puts `t` for a double star in place of the slash before it; a double star that follows one
directly is the same double star. -/
def Group.deepen (g : Group) (t : Token) : Group :=
  match g.tokens with
  | .deepStart :: _ => g
  | .deepEnd :: _ => g
  | _ :: rest => { g with tokens := t :: rest }
  | [] => { g with tokens := [t] }

/-- What two stars stand for: the new group and the text after them. `before` is the character in
front of them and `outer` tells whether they stand outside every group. -/
def readDoubleStar (before : Option Char) (outer : Bool) (g : Group) (rest : List Char) :
    Group × List Char :=
  let two := (g.push .star).push .star
  if g.tokens.isEmpty then
    match rest with
    | [] => (g.push .deepStart, [])
    | '/' :: rest => (g.push .deepStart, rest)
    | _ => (two, rest)
  else if before ≠ some '/' && (outer || (before ≠ some ',' && before ≠ some '{')) then (two, rest)
  else
    match rest with
    | [] => (g.deepen .deepEnd, [])
    | '/' :: rest' => (g.deepen .deepMiddle, rest')
    | c :: _ => if !outer && (c = ',' || c = '}') then (g.deepen .deepEnd, rest) else (two, rest)

/-- The tokens of a glob. `before` is the character in front of the text left; `outers` are the
groups around the current one, innermost first. Each round reads at least one character, so
`fuel` of more than the length of the text is enough. -/
def readTokens (fuel : Nat) (before : Option Char) (outers : List Group) (g : Group)
    (cs : List Char) : Except Cause (List Token) :=
  match fuel with
  | 0 => .error .unclosedGroup
  | fuel + 1 =>
    match cs with
    | [] => if outers.isEmpty then .ok g.tokens.reverse else .error .unclosedGroup
    | '?' :: rest => readTokens fuel (some '?') outers (g.push .any) rest
    | '*' :: '*' :: rest =>
      let (g, after) := readDoubleStar before outers.isEmpty g rest
      readTokens fuel (some (if after.length < rest.length then '/' else '*')) outers g after
    | '*' :: rest => readTokens fuel (some '*') outers (g.push .star) rest
    | '[' :: rest => do
      let (t, rest) ← readClass rest
      readTokens fuel (some ']') outers (g.push t) rest
    | '{' :: rest => readTokens fuel (some '{') (g :: outers) {} rest
    | '}' :: rest =>
      match outers with
      | [] => .error .unopenedGroup
      | outer :: outers => readTokens fuel (some '}') outers (outer.push g.toToken) rest
    | ',' :: rest =>
      if outers.isEmpty then readTokens fuel (some ',') outers (g.push (.literal ',')) rest
      else readTokens fuel (some ',') outers { branches := g.tokens :: g.branches } rest
    | '\\' :: c :: rest => readTokens fuel (some c) outers (g.push (.literal c)) rest
    | ['\\'] => .error .danglingEscape
    | c :: rest => readTokens fuel (some c) outers (g.push (.literal c)) rest

/-! ## Matching -/

/-- The slash as a byte. -/
def slash : UInt8 := 0x2F

/-- Whether `k` accepts some suffix of the bytes. -/
def someSuffix (k : List UInt8 → Bool) : List UInt8 → Bool
  | [] => k []
  | b :: bs => k (b :: bs) || someSuffix k bs

/-- Whether `k` accepts what follows some slash in the bytes. -/
def afterSomeSlash (k : List UInt8 → Bool) : List UInt8 → Bool
  | [] => false
  | b :: bs => (b == slash && k bs) || afterSomeSlash k bs

/-- Whether `k` accepts what follows the bytes `front`. -/
def afterBytes (k : List UInt8 → Bool) (front bs : List UInt8) : Bool :=
  front.isPrefixOf bs && k (bs.drop front.length)

/-- Whether a byte is in the set that a range of characters stands for: the bytes of both ends, and
those between the last byte of the lower and the first byte of the upper end. -/
def inRange (b : UInt8) (range : Char × Char) : Bool :=
  let low := String.utf8EncodeChar range.1
  let high := String.utf8EncodeChar range.2
  low.contains b || high.contains b ||
    (range.1 ≠ range.2 && low.getLast?.any (· ≤ b) && high.head?.any (b ≤ ·))

mutual

/-- Whether a token stands for anything; a group of empty branches does not. -/
def Token.isSolid : Token → Bool
  | .choice branches => anySolid branches
  | _ => true

/-- Whether some token of a list stands for anything. -/
def solid : List Token → Bool
  | [] => false
  | t :: ts => t.isSolid || solid ts

/-- Whether some list holds a token that stands for anything. -/
def anySolid : List (List Token) → Bool
  | [] => false
  | ts :: rest => solid ts || anySolid rest

end

mutual

/-- Whether a token can account for the front of the bytes so that `k` accepts the rest. -/
def Token.run (k : List UInt8 → Bool) (bs : List UInt8) : Token → Bool
  | .literal c => afterBytes k (String.utf8EncodeChar c) bs
  | .any => match bs with | [] => false | _ :: rest => k rest
  | .star => someSuffix k bs
  | .deepStart => k bs || afterSomeSlash k bs
  | .deepEnd => match bs with | [] => false | b :: rest => b == slash && someSuffix k rest
  | .deepMiddle =>
    match bs with
    | [] => false
    | b :: rest => b == slash && (k rest || afterSomeSlash k rest)
  | .oneOf negated ranges =>
    match bs with
    | [] => false
    | b :: rest => (ranges.any (inRange b) != negated) && k rest
  | .choice branches => if anySolid branches then runAny k bs branches else k bs

/-- Whether tokens can account for the front of the bytes, one after the other. -/
def runAll (k : List UInt8 → Bool) (bs : List UInt8) : List Token → Bool
  | [] => k bs
  | t :: ts => t.run (fun rest => runAll k rest ts) bs

/-- Whether a branch that stands for anything can account for the front of the bytes. -/
def runAny (k : List UInt8 → Bool) (bs : List UInt8) : List (List Token) → Bool
  | [] => false
  | ts :: rest => (solid ts && runAll k bs ts) || runAny k bs rest

end

end Glob

/-- A pattern over whole paths. -/
structure Glob where
  tokens : List Glob.Token

namespace Glob

/-- The glob that a text stands for. -/
def parse (s : String) : Except Error Glob :=
  match readTokens (s.length + 1) none [] {} s.toList with
  | .ok tokens => .ok ⟨tokens⟩
  | .error cause => .error ⟨s, cause⟩

/-- Whether the glob accounts for a whole path. A double star alone accounts for every path. -/
def matches? (g : Glob) (path : String) : Bool :=
  match g.tokens with
  | [.deepStart] => true
  | tokens => runAll List.isEmpty (Text.encode path) tokens

end Glob

end SourceDocs
