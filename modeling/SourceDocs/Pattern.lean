import SourceDocs.Text.Word

set_option autoImplicit false

/-! # Patterns: leftmost, preference-ordered text search

A `Pattern` describes stretches of a text. At one position a pattern may match in several ways; the
ways are ordered (`orElse` prefers its first part, `most` and `loop` prefer more, `fewest` prefers
less), and `Pattern.run` hands them to a continuation in that order until one is accepted. A search
takes the first way at the leftmost position that has one.

Every recursion here is structural: a loop is bounded by the number of characters left, because
each of its rounds has to move forward. -/

namespace SourceDocs

/-- A stretch of a text, from position `start` up to but excluding `stop`. -/
structure Span where
  start : Nat
  stop : Nat
  deriving DecidableEq

/-- The part of `text` that the span covers. -/
def Span.slice (s : Span) (text : Array Char) : List Char :=
  (text.extract s.start s.stop).toList

/-- A pattern over texts. -/
inductive Pattern where
  /-- Nothing at all. -/
  | empty
  /-- One character of a class. -/
  | one (accept : Char → Bool)
  /-- One pattern after the other. -/
  | seq (first second : Pattern)
  /-- The first pattern, or else the second. -/
  | orElse (first second : Pattern)
  /-- As many characters of a class as the rest of the pattern allows. -/
  | most (accept : Char → Bool)
  /-- As few characters of a class as the rest of the pattern allows. -/
  | fewest (accept : Char → Bool)
  /-- The body again and again, as often as the rest of the pattern allows. -/
  | loop (body : Pattern)
  /-- The body; the text it matched is remembered as the match's name. -/
  | named (body : Pattern)
  /-- The remembered name once more. -/
  | again
  /-- Between a word character and none, on either side. -/
  | wordEdge
  /-- At the start of the text or directly after a line feed. -/
  | lineStart
  /-- At the start of the text. -/
  | textStart
  /-- At the end of the text. -/
  | textEnd

namespace Pattern

instance : Append Pattern := ⟨seq⟩

instance : OrElse Pattern := ⟨fun p q => orElse p (q ())⟩

/-! ## Patterns built from the primitive ones -/

/-- Exactly the text `s`. -/
def lit (s : String) : Pattern :=
  s.toList.foldr (fun ch p => one (· == ch) ++ p) empty

/-- Exactly the text `s`, ASCII letters in either case. -/
def litAnyCase (s : String) : Pattern :=
  s.toList.foldr (fun ch p => one (fun c => c.toLower == ch.toLower) ++ p) empty

/-- One or more characters of a class, as many as possible. -/
def most1 (accept : Char → Bool) : Pattern :=
  one accept ++ most accept

/-- The pattern if it matches, else nothing. -/
def optional (p : Pattern) : Pattern :=
  orElse p empty

/-- One or more rounds of the pattern, as many as possible. -/
def loop1 (p : Pattern) : Pattern :=
  p ++ loop p

/-- The first of several patterns that matches. -/
def firstOf (p : Pattern) (ps : List Pattern) : Pattern :=
  match ps with
  | [] => p
  | q :: qs => orElse p (firstOf q qs)

/-! ## Matching at a position -/

/-- Where a match stands: the next position and the remembered name. -/
structure Cursor where
  pos : Nat
  name? : Option Span := none
  deriving DecidableEq

/-- The same cursor at another position. -/
def Cursor.at (c : Cursor) (pos : Nat) : Cursor :=
  { c with pos }

/-- The end of the run of characters of a class that starts at `pos`, looking at no more than
`bound` of them. -/
def reach (text : Array Char) (accept : Char → Bool) (bound pos : Nat) : Nat :=
  match bound with
  | 0 => pos
  | bound + 1 =>
    match text[pos]? with
    | none => pos
    | some ch => if accept ch then reach text accept bound (pos + 1) else pos

/-- Offers `k` the positions `n` ahead, `n - 1` ahead and so on down to the cursor itself. -/
def longestFirst (k : Cursor → Option Cursor) (c : Cursor) (n : Nat) : Option Cursor :=
  match k (c.at (c.pos + n)) with
  | some r => some r
  | none =>
    match n with
    | 0 => none
    | n + 1 => longestFirst k c n

/-- Offers `k` the cursor itself, then one ahead and so on up to `n` ahead. -/
def shortestFirst (k : Cursor → Option Cursor) (c : Cursor) (n : Nat) : Option Cursor :=
  match k c with
  | some r => some r
  | none =>
    match n with
    | 0 => none
    | n + 1 => shortestFirst k (c.at (c.pos + 1)) n

/-- Runs `body` up to `bound` times before `k`, preferring more rounds. A round that does not move
forward is no round. -/
def roundsFirst (body : Cursor → (Cursor → Option Cursor) → Option Cursor)
    (k : Cursor → Option Cursor) (bound : Nat) (c : Cursor) : Option Cursor :=
  match bound with
  | 0 => k c
  | bound + 1 =>
    match body c fun c' => if c.pos < c'.pos then roundsFirst body k bound c' else none with
    | some r => some r
    | none => k c

/-- Whether the character at a position exists and is a word character. -/
def wordAt (text : Array Char) (pos : Nat) : Bool :=
  match text[pos]? with
  | some ch => Text.isWord ch
  | none => false

/-- Whether the character before a position exists and is a word character. -/
def wordBefore (text : Array Char) (pos : Nat) : Bool :=
  match pos with
  | 0 => false
  | p + 1 => wordAt text p

/-- Tries the ways in which a pattern matches at a cursor, in order of preference, until the
continuation accepts one. -/
def run (text : Array Char) : Pattern → Cursor → (Cursor → Option Cursor) → Option Cursor
  | empty, c, k => k c
  | one accept, c, k =>
    match text[c.pos]? with
    | some ch => if accept ch then k (c.at (c.pos + 1)) else none
    | none => none
  | seq p q, c, k => run text p c fun c' => run text q c' k
  | orElse p q, c, k =>
    match run text p c k with
    | some r => some r
    | none => run text q c k
  | most accept, c, k =>
    longestFirst k c (reach text accept (text.size - c.pos) c.pos - c.pos)
  | fewest accept, c, k =>
    shortestFirst k c (reach text accept (text.size - c.pos) c.pos - c.pos)
  | loop p, c, k => roundsFirst (run text p) k (text.size - c.pos) c
  | named p, c, k => run text p c fun c' => k { c' with name? := some ⟨c.pos, c'.pos⟩ }
  | again, c, k =>
    match c.name? with
    | none => none
    | some s =>
      let stop := c.pos + (s.stop - s.start)
      if s.slice text == (Span.mk c.pos stop).slice text then k (c.at stop) else none
  | wordEdge, c, k =>
    if wordBefore text c.pos != wordAt text c.pos then k c else none
  | lineStart, c, k =>
    if c.pos == 0 || text[c.pos - 1]? == some '\n' then k c else none
  | textStart, c, k => if c.pos == 0 then k c else none
  | textEnd, c, k => if c.pos == text.size then k c else none

/-! ## Searching a text -/

/-- A match: the span it covers and the span of its name, if the pattern names one. -/
structure Match where
  span : Span
  name? : Option Span
  deriving DecidableEq

/-- The preferred match that starts at `start`. -/
def matchAt? (text : Array Char) (p : Pattern) (start : Nat) : Option Match :=
  match run text p { pos := start } some with
  | some c => some ⟨⟨start, c.pos⟩, c.name?⟩
  | none => none

/-- The leftmost match that starts at `start` or at one of the `bound` positions after it. -/
def findFrom? (text : Array Char) (p : Pattern) (bound start : Nat) : Option Match :=
  match matchAt? text p start with
  | some m => some m
  | none =>
    match bound with
    | 0 => none
    | bound + 1 => findFrom? text p bound (start + 1)

/-- Whether the pattern matches anywhere in the text. -/
def occursIn (p : Pattern) (text : Array Char) : Bool :=
  (findFrom? text p text.size 0).isSome

/-- The matches from `start` on, left to right, at most `bound` of them; each search resumes where
the match before it ended. -/
def findAllFrom (text : Array Char) (p : Pattern) : (bound start : Nat) → List Match
  | 0, _ => []
  | bound + 1, start =>
    if text.size < start then []
    else
      match findFrom? text p (text.size - start) start with
      | none => []
      | some m => m :: findAllFrom text p bound (max m.span.stop (m.span.start + 1))

/-- All matches in the text, left to right and without overlap. -/
def findAll (p : Pattern) (text : Array Char) : List Match :=
  findAllFrom text p (text.size + 1) 0

/-- The texts of all matches, in order. -/
def texts (p : Pattern) (text : Array Char) : List String :=
  (findAll p text).map fun m => String.ofList (m.span.slice text)

/-- The names of all matches that have one, in order. -/
def names (p : Pattern) (text : Array Char) : List String :=
  (findAll p text).filterMap fun m => m.name?.map fun s => String.ofList (s.slice text)

end Pattern

end SourceDocs
