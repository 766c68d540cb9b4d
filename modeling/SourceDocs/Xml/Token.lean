import SourceDocs.Xml.Entity

set_option autoImplicit false

/-! # Markup tokens

The parts of a document in order: texts, character data sections and tags. Comments and processing
instructions leave no token. Where the markup is broken, the tokens end with a fault. -/

namespace SourceDocs.Xml

/-- A part of a document. -/
inductive Token where
  /-- Text, with its references. -/
  | text (raw : List Char)
  /-- Text that stands for itself. -/
  | verbatim (raw : List Char)
  /-- A tag that begins an element or, if `isEmpty`, is one. -/
  | opening (name attributes : List Char) (isEmpty : Bool)
  | closing (name : List Char)
  | doctype
  | fault
  deriving DecidableEq

/-- What precedes the first occurrence of a pattern and what follows it. -/
def cut? (pattern : List Char) : List Char → Option (List Char × List Char)
  | [] => none
  | c :: cs =>
    if pattern.isPrefixOf (c :: cs) then some ([], (c :: cs).drop pattern.length)
    else (cut? pattern cs).map fun (before, rest) => (c :: before, rest)

theorem length_le_of_cut? {pattern cs before rest : List Char}
    (h : cut? pattern cs = some (before, rest)) : rest.length ≤ cs.length := by
  induction cs generalizing before with
  | nil => simp [cut?] at h
  | cons c cs ih =>
    unfold cut? at h
    split at h
    · simp only [Option.some.injEq, Prod.mk.injEq] at h
      rw [← h.2, List.length_drop]
      omega
    · obtain ⟨⟨before', rest'⟩, hs, he⟩ := Option.map_eq_some_iff.1 h
      simp only [Prod.mk.injEq] at he
      obtain ⟨-, rfl⟩ := he
      have := ih hs
      simp only [List.length_cons]
      omega

/-- The quote that is open after a character, given the one that is open before it. -/
def quoteAfter (c : Char) : Option Char → Option Char
  | none => if c = '"' || c = '\'' then some c else none
  | some quote => if c = quote then none else some quote

/-- The inside of a tag, up to the first `>` outside of quotes, and what follows it. -/
def splitTag? (quote : Option Char) : List Char → Option (List Char × List Char)
  | [] => none
  | c :: cs =>
    if c = '>' ∧ quote = none then some ([], cs)
    else (splitTag? (quoteAfter c quote) cs).map fun (inside, rest) => (c :: inside, rest)

theorem length_le_of_splitTag? {quote : Option Char} {cs inside rest : List Char}
    (h : splitTag? quote cs = some (inside, rest)) : rest.length ≤ cs.length := by
  induction cs generalizing quote inside with
  | nil => simp [splitTag?] at h
  | cons c cs ih =>
    unfold splitTag? at h
    split at h
    · simp only [Option.some.injEq, Prod.mk.injEq] at h
      simp [← h.2]
    · obtain ⟨⟨inside', rest'⟩, hs, he⟩ := Option.map_eq_some_iff.1 h
      simp only [Prod.mk.injEq] at he
      obtain ⟨-, rfl⟩ := he
      have := ih hs
      simp only [List.length_cons]
      omega

/-- The inside of a document type declaration, in which every `<` has its `>`, and what follows. -/
def splitDoctype? (depth : Nat) : List Char → Option (List Char × List Char)
  | [] => none
  | c :: cs =>
    if c = '>' ∧ depth = 0 then some ([], cs)
    else
      let depth := if c = '<' then depth + 1 else if c = '>' then depth - 1 else depth
      (splitDoctype? depth cs).map fun (inside, rest) => (c :: inside, rest)

theorem length_le_of_splitDoctype? {depth : Nat} {cs inside rest : List Char}
    (h : splitDoctype? depth cs = some (inside, rest)) : rest.length ≤ cs.length := by
  induction cs generalizing depth inside with
  | nil => simp [splitDoctype?] at h
  | cons c cs ih =>
    unfold splitDoctype? at h
    split at h
    · simp only [Option.some.injEq, Prod.mk.injEq] at h
      simp [← h.2]
    · obtain ⟨⟨inside', rest'⟩, hs, he⟩ := Option.map_eq_some_iff.1 h
      simp only [Prod.mk.injEq] at he
      obtain ⟨-, rfl⟩ := he
      have := ih hs
      simp only [List.length_cons]
      omega

/-- A text without the blanks at its end. -/
def trimEnd (cs : List Char) : List Char := (cs.reverse.dropWhile isBlank).reverse

namespace Token

/-- The tag with some inside. -/
def ofTag (inside : List Char) : Token :=
  let isEmpty := inside.getLast? = some '/'
  let inside := if isEmpty then inside.dropLast else inside
  .opening (inside.takeWhile (!isBlank ·)) (inside.dropWhile (!isBlank ·)) isEmpty

/-- The tag that ends an element, given what follows its slash. Blanks may follow the name. -/
def ofClosing (inside : List Char) : Token :=
  .closing (if inside.all isBlank then inside else trimEnd inside)

/-- Whether the inside of a declaration declares a document type. -/
def isDoctype (inside : List Char) : Bool :=
  (inside.take 7).map Char.toUpper = ['D', 'O', 'C', 'T', 'Y', 'P', 'E'] &&
    !(inside.drop 7).all isBlank

/-- The markup that follows a `<`, with what follows it. -/
def markup? : List Char → Option (List Token × List Char)
  | '!' :: '-' :: '-' :: cs => (cut? ['-', '-', '>'] cs).map fun (_, rest) => ([], rest)
  | '!' :: '[' :: 'C' :: 'D' :: 'A' :: 'T' :: 'A' :: '[' :: cs =>
    (cut? [']', ']', '>'] cs).map fun (inside, rest) => ([.verbatim inside], rest)
  | '!' :: cs =>
    match splitDoctype? 0 cs with
    | some (inside, rest) => if isDoctype inside then some ([.doctype], rest) else none
    | none => none
  | '?' :: '>' :: _ => none
  | '?' :: cs => (cut? ['?', '>'] cs).map fun (_, rest) => ([], rest)
  | '/' :: cs => (cut? ['>'] cs).map fun (inside, rest) => ([ofClosing inside], rest)
  | cs => (splitTag? none cs).map fun (inside, rest) => ([ofTag inside], rest)

theorem length_le_of_markup? {cs rest : List Char} {tokens : List Token}
    (h : markup? cs = some (tokens, rest)) : rest.length ≤ cs.length := by
  unfold markup? at h
  split at h
  case h_3 =>
    split at h
    · rename_i hs
      split at h
      · simp only [Option.some.injEq, Prod.mk.injEq] at h
        have := length_le_of_splitDoctype? hs
        rw [← h.2]
        simp only [List.length_cons]
        omega
      · simp at h
    · simp at h
  case h_4 => simp at h
  case h_7 =>
    obtain ⟨⟨inside, rest'⟩, hs, he⟩ := Option.map_eq_some_iff.1 h
    simp only [Prod.mk.injEq] at he
    obtain ⟨-, rfl⟩ := he
    exact length_le_of_splitTag? hs
  all_goals
    obtain ⟨⟨inside, rest'⟩, hs, he⟩ := Option.map_eq_some_iff.1 h
    simp only [Prod.mk.injEq] at he
    obtain ⟨-, rfl⟩ := he
    have := length_le_of_cut? hs
    simp only [List.length_cons]
    omega

/-- The tokens of a document. -/
def lex : List Char → List Token
  | [] => []
  | '<' :: cs =>
    match h : markup? cs with
    | some (tokens, rest) =>
      have := length_le_of_markup? h
      tokens ++ lex rest
    | none => [.fault]
  | c :: cs => .text (c :: cs.takeWhile (· ≠ '<')) :: lex (cs.dropWhile (· ≠ '<'))
  termination_by cs => cs.length
  decreasing_by
    · simp only [List.length_cons]
      omega
    · have := (List.dropWhile_suffix (l := cs) (· ≠ '<')).length_le
      simp only [List.length_cons]
      omega

end Token

end SourceDocs.Xml
