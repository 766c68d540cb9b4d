import Mathlib.Data.List.TakeWhile
import SourceDocs.Xml.Record

set_option autoImplicit false

/-! # Documents that are written and read back

A text is written with the names of the five characters that have one, and that is undone when it is
read (`unescape?_escape`). Blanks are written as they are, so what reading trims off are the blanks
at the edges of the text itself (`trimmed_escape`). What a part of a document adds to the element it
stands in does not depend on what stands around it (`Makes`); so a document is read part by part,
texts first, then the elements that hold them (`makes_element`). -/

namespace SourceDocs.Xml

variable {cs raw name attributes body text text' gap rest : List Char} {nodes nodes' : List Node}
  {c : Char}

/-! ## Texts -/

/-- The written form of a character: by its name, if it has one. -/
def escapeChar (c : Char) : List Char :=
  match entities.find? (·.2 = c) with
  | some (name, _) => '&' :: (name ++ [';'])
  | none => [c]

/-- The written form of a text. -/
def escape (cs : List Char) : List Char := cs.flatMap escapeChar

/-- A text without the blanks at its start and at its end. -/
def trimmed (cs : List Char) : List Char := trimEnd (cs.dropWhile isBlank)

theorem escapeChar_cases (c : Char) : (escapeChar c = [c] ∧ c ≠ '<' ∧ c ≠ '&') ∨
    ∃ name, (name, c) ∈ entities ∧ escapeChar c = '&' :: (name ++ [';']) := by
  cases hfind : entities.find? (·.2 = c) with
  | none =>
    have hnone := List.find?_eq_none.1 hfind
    refine .inl ⟨by rw [escapeChar, hfind], ?_, ?_⟩
    · rintro rfl
      exact absurd hnone (by decide)
    · rintro rfl
      exact absurd hnone (by decide)
  | some entry =>
    obtain ⟨name, c'⟩ := entry
    have hc : c' = c := by simpa using List.find?_some hfind
    subst hc
    exact .inr ⟨name, List.mem_of_find?_eq_some hfind, by rw [escapeChar, hfind]⟩

theorem splitReference?_append (hend : ';' ∉ name) (hamp : '&' ∉ name) (rest : List Char) :
    splitReference? (name ++ ';' :: rest) = some (name, rest) := by
  induction name with
  | nil => rfl
  | cons ch name ih =>
    rw [List.mem_cons, not_or] at hend hamp
    rw [List.cons_append, splitReference?, ih hend.2 hamp.2]
    · rfl
    · exact fun heq => hend.1 heq.symm
    · exact fun heq => hamp.1 heq.symm

theorem unescape?_cons (h : c ≠ '&') (cs : List Char) :
    unescape? (c :: cs) = (unescape? cs).map (c :: ·) := by
  rw [unescape?]
  exact fun heq => h heq

theorem unescape?_reference (h : (name, c) ∈ entities) (rest : List Char) :
    unescape? ('&' :: (name ++ ';' :: rest)) = (unescape? rest).map (c :: ·) := by
  have hentities : ∀ entry ∈ entities, referenced? entry.1 = some entry.2 ∧
      ';' ∉ entry.1 ∧ '&' ∉ entry.1 := by
    decide
  obtain ⟨hreferenced, hend, hamp⟩ := hentities _ h
  rw [unescape?]
  split
  · rename_i hsplit
    rw [splitReference?_append hend hamp] at hsplit
    cases hsplit
  · rename_i inside rest' hsplit
    rw [splitReference?_append hend hamp] at hsplit
    cases hsplit
    simp only [hreferenced, Option.bind_eq_bind, Option.bind_some]
    cases unescape? rest <;> rfl

/-- What is written is read back. -/
theorem unescape?_escape (cs : List Char) : unescape? (escape cs) = some cs := by
  induction cs with
  | nil =>
    rw [escape, List.flatMap_nil, unescape?]
  | cons c cs ih =>
    rw [escape, List.flatMap_cons, ← escape]
    rcases escapeChar_cases c with ⟨hself, -, hamp⟩ | ⟨name, hentity, hname⟩
    · rw [hself, List.singleton_append, unescape?_cons hamp, ih]
      rfl
    · rw [hname, List.cons_append, List.append_assoc, List.singleton_append,
        unescape?_reference hentity, ih]
      rfl

theorem notMem_escape (cs : List Char) : '<' ∉ escape cs := by
  have hentities : ∀ entry ∈ entities, '<' ∉ '&' :: (entry.1 ++ [';']) := by
    decide
  rw [escape, List.mem_flatMap]
  rintro ⟨c, -, hmem⟩
  rcases escapeChar_cases c with ⟨hself, hlt, -⟩ | ⟨name, hentity, hname⟩
  · rw [hself] at hmem
    exact hlt (List.mem_singleton.1 hmem).symm
  · rw [hname] at hmem
    exact hentities _ hentity hmem

/-- Dropping blanks before characters are written, or after. -/
theorem dropWhile_flatMap {f : Char → List Char} (hblank : ∀ c, isBlank c = true → f c = [c])
    (hother : ∀ c, isBlank c = false → ∃ x more, f c = x :: more ∧ isBlank x = false)
    (cs : List Char) :
    (cs.flatMap f).dropWhile isBlank = (cs.dropWhile isBlank).flatMap f := by
  induction cs with
  | nil => rfl
  | cons c cs ih =>
    cases hc : isBlank c with
    | true =>
      rw [List.flatMap_cons, hblank c hc, List.singleton_append, List.dropWhile_cons_of_pos hc,
        List.dropWhile_cons_of_pos hc, ih]
    | false =>
      obtain ⟨x, more, hf, hx⟩ := hother c hc
      rw [List.dropWhile_cons_of_neg (by simp [hc]), List.flatMap_cons, hf, List.cons_append,
        List.dropWhile_cons_of_neg (by simp [hx])]

theorem escapeChar_of_isBlank (h : isBlank c = true) : escapeChar c = [c] := by
  have hentities : ∀ entry ∈ entities, isBlank entry.2 = false := by
    decide
  rcases escapeChar_cases c with ⟨hself, -⟩ | ⟨name, hentity, -⟩
  · exact hself
  · rw [hentities _ hentity] at h
    cases h

theorem escape_dropWhile (cs : List Char) :
    (escape cs).dropWhile isBlank = escape (cs.dropWhile isBlank) := by
  refine dropWhile_flatMap (fun _ => escapeChar_of_isBlank) (fun c hc => ?_) cs
  rcases escapeChar_cases c with ⟨hself, -⟩ | ⟨name, -, hname⟩
  · exact ⟨c, [], hself, hc⟩
  · exact ⟨'&', _, hname, rfl⟩

theorem escape_trimEnd (cs : List Char) : trimEnd (escape cs) = escape (trimEnd cs) := by
  have hreverse : List.reverse ∘ (List.reverse ∘ escapeChar) = escapeChar :=
    funext fun c => List.reverse_reverse (escapeChar c)
  have hdrop : (cs.reverse.flatMap (List.reverse ∘ escapeChar)).dropWhile isBlank =
      (cs.reverse.dropWhile isBlank).flatMap (List.reverse ∘ escapeChar) := by
    refine dropWhile_flatMap (fun c hc => ?_) (fun c hc => ?_) cs.reverse
    · rw [Function.comp_apply, escapeChar_of_isBlank hc, List.reverse_singleton]
    · rcases escapeChar_cases c with ⟨hself, -⟩ | ⟨name, -, hname⟩
      · exact ⟨c, [], by rw [Function.comp_apply, hself, List.reverse_singleton], hc⟩
      · exact ⟨';', name.reverse ++ ['&'], by simp [hname], rfl⟩
  rw [trimEnd, trimEnd, escape, List.reverse_flatMap, hdrop, List.reverse_flatMap, hreverse]
  rfl

/-- What is trimmed off a written text is what is trimmed off the text. -/
theorem trimmed_escape (cs : List Char) : trimmed (escape cs) = escape (trimmed cs) := by
  rw [trimmed, escape_dropWhile, escape_trimEnd, trimmed]

theorem all_isBlank_iff : cs.all isBlank = true ↔ trimmed cs = [] := by
  have hempty : ∀ xs : List Char, trimEnd xs = [] ↔ xs.all isBlank = true := by
    intro xs
    rw [trimEnd, List.reverse_eq_nil_iff, List.dropWhile_eq_nil_iff]
    simp
  rw [trimmed, hempty, List.all_eq_true, List.all_eq_true]
  constructor
  · exact fun h c hc => h c (List.dropWhile_subset _ hc)
  · intro h c hc
    rw [← List.takeWhile_append_dropWhile (p := isBlank) (l := cs), List.mem_append] at hc
    exact hc.elim List.mem_takeWhile_imp (h c)

/-- The pieces that a text consists of. -/
def piecesOf : List Char → List Piece
  | [] => []
  | raw => [.text raw]

theorem textOf_piecesOf (raw : List Char) : textOf (piecesOf raw) =
    if trimmed raw = [] then [] else [.text (unescape? (trimmed raw))] := by
  cases raw with
  | nil => rfl
  | cons c cs =>
    have hpieces : piecesOf (c :: cs) = [.text (c :: cs)] := rfl
    by_cases hall : (c :: cs).all isBlank = true
    · have hidle : Piece.isIdle (.text (c :: cs)) = true := hall
      rw [hpieces, textOf, Piece.trimmed, List.dropWhile_cons_of_pos hidle,
        if_pos (all_isBlank_iff.1 hall)]
      rfl
    · have hidle : ¬Piece.isIdle (.text (c :: cs)) = true := hall
      have hcontent : ([Piece.text (trimmed (c :: cs))].mapM Piece.content?).map List.flatten =
          unescape? (trimmed (c :: cs)) := by
        rw [List.mapM_cons, List.mapM_nil, Piece.content?]
        cases unescape? (trimmed (c :: cs)) <;> simp
      rw [hpieces, textOf, Piece.trimmed, List.dropWhile_cons_of_neg hidle,
        if_neg (mt all_isBlank_iff.2 hall), ← hcontent]
      rfl

/-- The parts of an element that holds a text. -/
def written (cs : List Char) : List Node :=
  if trimmed cs = [] then [] else [.text (some (trimmed cs))]

theorem textOf_escape (cs : List Char) : textOf (piecesOf (escape cs)) = written cs := by
  have hempty : escape (trimmed cs) = [] ↔ trimmed cs = [] := by
    constructor
    · intro h
      have hread := unescape?_escape (trimmed cs)
      rw [h, unescape?] at hread
      exact (Option.some.inj hread).symm
    · intro h
      rw [h]
      rfl
  simp only [textOf_piecesOf, trimmed_escape, unescape?_escape, hempty, written]

theorem textIn?_written (cs : List Char) :
    textIn? (written cs) = some (String.ofList (trimmed cs)) := by
  unfold written
  split
  · rename_i hempty
    rw [hempty]
    rfl
  · rfl

/-! ## Tokens -/

/-- The tokens that a text consists of. -/
def textTokens : List Char → List Token
  | [] => []
  | raw => [.text raw]

theorem lex_cons (h : c ≠ '<') (cs : List Char) : Token.lex (c :: cs) =
    .text (c :: cs.takeWhile (· ≠ '<')) :: Token.lex (cs.dropWhile (· ≠ '<')) := by
  rw [Token.lex]
  exact fun heq => h heq

/-- A text goes on to the next tag. -/
theorem lex_text (h : '<' ∉ raw) (rest : List Char) :
    Token.lex (raw ++ '<' :: rest) = textTokens raw ++ Token.lex ('<' :: rest) := by
  cases raw with
  | nil => rfl
  | cons c cs =>
    have hall : ∀ ch ∈ cs, decide (ch ≠ '<') = true := by
      intro ch hch
      rw [decide_eq_true_eq]
      rintro rfl
      exact h (.tail _ hch)
    have hc : c ≠ '<' := by
      rintro rfl
      exact h List.mem_cons_self
    have htake : (cs ++ '<' :: rest).takeWhile (· ≠ '<') = cs := by
      rw [List.takeWhile_append_of_pos hall, List.takeWhile_cons_of_neg (by decide),
        List.append_nil]
    have hdrop : (cs ++ '<' :: rest).dropWhile (· ≠ '<') = '<' :: rest := by
      rw [List.dropWhile_append_of_pos hall, List.dropWhile_cons_of_neg (by decide)]
    rw [List.cons_append, lex_cons hc, htake, hdrop]
    rfl

theorem lex_markup {tokens : List Token} (h : Token.markup? cs = some (tokens, rest)) :
    Token.lex ('<' :: cs) = tokens ++ Token.lex rest := by
  rw [Token.lex]
  split
  · rename_i hmarkup
    rw [h] at hmarkup
    cases hmarkup
    rfl
  · rename_i hmarkup
    rw [h] at hmarkup
    cases hmarkup

/-- A name of letters. -/
structure IsName (name : List Char) : Prop where
  ne_nil : name ≠ []
  isAlpha : ∀ ch ∈ name, ch.isAlpha = true

instance : DecidablePred IsName := fun name =>
  decidable_of_iff (name ≠ [] ∧ name.all Char.isAlpha = true)
    ⟨fun h => ⟨h.1, List.all_eq_true.1 h.2⟩, fun h => ⟨h.1, List.all_eq_true.2 h.2⟩⟩

theorem IsName.notMem (h : IsName name) (hc : c.isAlpha = false) : c ∉ name := by
  intro hmem
  rw [h.isAlpha c hmem] at hc
  cases hc

theorem isBlank_of_isAlphanum (h : c.isAlphanum = true) : isBlank c = false := by
  cases hblank : isBlank c with
  | false => rfl
  | true =>
    have hc : c = ' ' ∨ c = '\t' ∨ c = '\n' ∨ c = '\r' := by
      simpa [isBlank, or_assoc] using hblank
    rcases hc with rfl | rfl | rfl | rfl <;> cases h

theorem IsName.isBlank_eq_false (h : IsName name) : ∀ ch ∈ name, isBlank ch = false := fun ch hch =>
  isBlank_of_isAlphanum (by rw [Char.isAlphanum, h.isAlpha ch hch, Bool.true_or])

/-- What can follow the name in a tag: it starts with a blank, all quotes in it are closed, and
nothing in it ends the tag. -/
structure IsAttributes (cs : List Char) : Prop where
  isBlank : cs.head?.all isBlank = true
  closed : cs.foldl (fun quote ch => quoteAfter ch quote) none = none
  noEnd : '>' ∉ cs
  noSlash : cs.getLast? ≠ some '/'

instance : DecidablePred IsAttributes := fun cs =>
  decidable_of_iff (cs.head?.all isBlank = true ∧
      cs.foldl (fun quote ch => quoteAfter ch quote) none = none ∧ '>' ∉ cs ∧
      cs.getLast? ≠ some '/')
    ⟨fun h => ⟨h.1, h.2.1, h.2.2.1, h.2.2.2⟩, fun h => ⟨h.1, h.2, h.3, h.4⟩⟩

theorem splitTag?_append {quote : Option Char} (hend : '>' ∉ cs)
    (hclosed : cs.foldl (fun quote ch => quoteAfter ch quote) quote = none) (rest : List Char) :
    splitTag? quote (cs ++ '>' :: rest) = some (cs, rest) := by
  induction cs generalizing quote with
  | nil =>
    rw [List.foldl_nil] at hclosed
    rw [List.nil_append, splitTag?, if_pos ⟨rfl, hclosed⟩]
  | cons ch cs ih =>
    rw [List.mem_cons, not_or] at hend
    rw [List.cons_append, splitTag?, if_neg fun h => hend.1 h.1.symm, ih hend.2 hclosed]
    rfl

/-- No quote is open in a name. -/
theorem IsName.foldl_quoteAfter (h : IsName name) :
    name.foldl (fun quote ch => quoteAfter ch quote) none = none := by
  refine List.foldlRecOn (motive := fun quote => quote = none) name _ rfl ?_
  rintro _ rfl ch hch
  have hdouble : ch ≠ '"' := fun heq => h.notMem rfl (heq ▸ hch)
  have hsingle : ch ≠ '\'' := fun heq => h.notMem rfl (heq ▸ hch)
  simp [quoteAfter, hdouble, hsingle]

theorem cut?_append (h : c ∉ name) (more rest : List Char) :
    cut? (c :: more) (name ++ c :: (more ++ rest)) = some (name, rest) := by
  induction name with
  | nil => simp [cut?]
  | cons ch name ih =>
    rw [List.mem_cons, not_or] at h
    rw [List.cons_append, cut?, if_neg (by simp [h.1]), ih h.2]
    rfl

theorem ofTag_append (hname : IsName name) (hattributes : IsAttributes attributes) :
    Token.ofTag (name ++ attributes) = .opening name attributes false := by
  have hletters : ∀ ch ∈ name, (!isBlank ch) = true := fun ch hch => by
    rw [hname.isBlank_eq_false ch hch]
    rfl
  have hlast : ¬(name ++ attributes).getLast? = some '/' := by
    rw [List.getLast?_append, Option.or_eq_some_iff]
    rintro (hlast | ⟨-, hlast⟩)
    · exact hattributes.noSlash hlast
    · exact hname.notMem rfl (List.mem_of_getLast? hlast)
  have hblanks : attributes.takeWhile (!isBlank ·) = [] ∧
      attributes.dropWhile (!isBlank ·) = attributes := by
    cases attributes with
    | nil => exact ⟨rfl, rfl⟩
    | cons ch cs =>
      have hblank : isBlank ch = true := hattributes.isBlank
      have hch : ¬(!isBlank ch) = true := by simp [hblank]
      exact ⟨List.takeWhile_cons_of_neg hch, List.dropWhile_cons_of_neg hch⟩
  have htake : (name ++ attributes).takeWhile (!isBlank ·) = name := by
    rw [List.takeWhile_append_of_pos hletters, hblanks.1, List.append_nil]
  have hdrop : (name ++ attributes).dropWhile (!isBlank ·) = attributes := by
    rw [List.dropWhile_append_of_pos hletters, hblanks.2]
  simp only [Token.ofTag, hlast, decide_false, if_false, htake, hdrop]

theorem IsName.ofClosing_eq (h : IsName name) : Token.ofClosing name = .closing name := by
  have hkeep : trimEnd name = name := by
    obtain ⟨last, before, hreverse⟩ :=
      List.exists_cons_of_ne_nil (mt List.reverse_eq_nil_iff.1 h.ne_nil)
    have hlast : last ∈ name := List.mem_reverse.1 (hreverse ▸ List.mem_cons_self)
    rw [trimEnd, hreverse, List.dropWhile_cons_of_neg
      (by simp [h.isBlank_eq_false last hlast]), ← hreverse, List.reverse_reverse]
  rw [Token.ofClosing, hkeep, ite_self]

/-- A tag that begins an element. -/
theorem markup?_opening (hname : IsName name) (hattributes : IsAttributes attributes)
    (rest : List Char) : Token.markup? (name ++ attributes ++ '>' :: rest) =
      some ([.opening name attributes false], rest) := by
  have hsplit : splitTag? none (name ++ attributes ++ '>' :: rest) =
      some (name ++ attributes, rest) := by
    refine splitTag?_append (fun hmem => ?_) ?_ rest
    · exact (List.mem_append.1 hmem).elim (hname.notMem rfl) hattributes.noEnd
    · rw [List.foldl_append, hname.foldl_quoteAfter, hattributes.closed]
  have htag := ofTag_append hname hattributes
  obtain ⟨ch, name, rfl⟩ := List.exists_cons_of_ne_nil hname.ne_nil
  have hne : ∀ c, c.isAlpha = false → ch ≠ c := fun c hc heq =>
    hname.notMem hc (heq ▸ List.mem_cons_self)
  rw [List.cons_append, List.cons_append] at hsplit ⊢
  rw [Token.markup?, hsplit, ← htag]
  · rfl
  -- a name starts with none of the characters that tell other markup
  all_goals
    intro cs heq
    refine hne _ ?_ (List.cons.inj heq).1
    rfl

/-- The tag that ends an element. -/
theorem markup?_closing (h : IsName name) (rest : List Char) :
    Token.markup? ('/' :: (name ++ '>' :: rest)) = some ([.closing name], rest) := by
  have hcut : cut? ['>'] (name ++ '>' :: rest) = some (name, rest) :=
    cut?_append (h.notMem rfl) [] rest
  rw [Token.markup?, hcut, ← h.ofClosing_eq]
  rfl

/-- A declaration leaves no token. -/
theorem markup?_declaration {inside : List Char} (hstart : c ≠ '>')
    (hend : '?' ∉ c :: inside) (rest : List Char) :
    Token.markup? ('?' :: (c :: inside ++ '?' :: '>' :: rest)) = some ([], rest) := by
  have hcut : cut? ['?', '>'] (c :: inside ++ '?' :: '>' :: rest) = some (c :: inside, rest) :=
    cut?_append hend ['>'] rest
  rw [List.cons_append] at hcut ⊢
  rw [Token.markup?, hcut]
  · rfl
  · intro tail heq
    exact hstart (List.cons.inj heq).1

/-! ## Elements -/

/-- A text has nothing but blanks. -/
def IsGap (gap : List Char) : Prop :=
  ∀ ch ∈ gap, isBlank ch = true

instance : DecidablePred IsGap := fun _ =>
  decidable_of_iff _ List.all_eq_true

theorem build_textTokens (opened : List OpenElement) (raw : List Char) (tokens : List Token) :
    build opened [] (textTokens raw ++ tokens) = build opened (piecesOf raw) tokens := by
  cases raw <;> rfl

theorem textOf_of_isGap (h : IsGap gap) : textOf (piecesOf gap) = [] := by
  rw [textOf_piecesOf, if_pos (all_isBlank_iff.1 (List.all_eq_true.2 h))]

theorem notMem_of_isGap (h : IsGap gap) : '<' ∉ gap := by
  intro hmem
  exact absurd (h _ hmem) (by decide)

/-- The written form of an element. -/
def elementText (name attributes body : List Char) : List Char :=
  '<' :: (name ++ attributes ++ '>' :: (body ++ '<' :: '/' :: (name ++ ['>'])))

/-- What markup adds to the element that it stands in, whatever follows it. -/
def Makes (text : List Char) (nodes : List Node) : Prop :=
  ∀ inner outer rest, build (inner :: outer) [] (Token.lex (text ++ rest)) =
    build ({ inner with parts := nodes.reverse ++ inner.parts } :: outer) [] (Token.lex rest)

/-- What the body of an element adds to it, up to its closing tag. -/
def Fills (body : List Char) (nodes : List Node) : Prop :=
  ∀ inner outer name rest, IsName name →
    build (inner :: outer) [] (Token.lex (body ++ '<' :: '/' :: (name ++ '>' :: rest))) =
      build ({ inner with parts := nodes.reverse ++ inner.parts } :: outer) []
        (.closing name :: Token.lex rest)

theorem Makes.nil : Makes [] [] :=
  fun _ _ _ => rfl

theorem Makes.append (h : Makes text nodes) (h' : Makes text' nodes') :
    Makes (text ++ text') (nodes ++ nodes') := by
  intro inner outer rest
  rw [List.append_assoc, h, h', List.reverse_append, List.append_assoc]

theorem Makes.flatMap {α : Type} {f : α → List Char} {g : α → Node} {xs : List α}
    (h : ∀ x ∈ xs, Makes (f x) [g x]) : Makes (xs.flatMap f) (xs.map g) := by
  induction xs with
  | nil => exact .nil
  | cons x xs ih =>
    obtain ⟨hx, hxs⟩ := List.forall_mem_cons.1 h
    exact hx.append (ih hxs)

theorem build_closing (inner : OpenElement) (outer : List OpenElement) (pieces : List Piece)
    (name : List Char) (tokens : List Token) :
    build (inner :: outer) pieces (.closing name :: tokens) =
      build ({ inner with parts := textOf pieces ++ inner.parts } :: outer) []
        (.closing name :: tokens) :=
  rfl

/-- A text fills an element. -/
theorem fills_escape (cs : List Char) : Fills (escape cs) (written cs) := by
  intro inner outer name rest hname
  have hwritten : (written cs).reverse = written cs := by
    unfold written
    split <;> rfl
  rw [lex_text (notMem_escape cs), build_textTokens, lex_markup (markup?_closing hname rest),
    List.singleton_append, build_closing, textOf_escape, hwritten]

/-- Elements, with blanks after the last one, fill an element. -/
theorem Makes.fills (h : Makes text nodes) (hgap : IsGap gap) : Fills (text ++ gap) nodes := by
  intro inner outer name rest hname
  rw [List.append_assoc, h, lex_text (notMem_of_isGap hgap), build_textTokens,
    lex_markup (markup?_closing hname rest), List.singleton_append, build_closing,
    textOf_of_isGap hgap, List.nil_append]

/-- An element with blanks before it. -/
theorem makes_element (hgap : IsGap gap) (hname : IsName name)
    (hattributes : IsAttributes attributes) (hbody : Fills body nodes) :
    Makes (gap ++ elementText name attributes body) [.element name attributes nodes] := by
  intro inner outer rest
  have htext : gap ++ elementText name attributes body ++ rest = gap ++ '<' ::
      (name ++ attributes ++ '>' :: (body ++ '<' :: '/' :: (name ++ '>' :: rest))) := by
    simp [elementText]
  have hopened : ∀ tokens,
      build (inner :: outer) (piecesOf gap) (.opening name attributes false :: tokens) =
        build ({ name, attributes } :: inner :: outer) [] tokens := by
    intro tokens
    rw [build, placeText, textOf_of_isGap hgap]
    rfl
  rw [htext, lex_text (notMem_of_isGap hgap), build_textTokens,
    lex_markup (markup?_opening hname hattributes _), List.singleton_append, hopened,
    hbody _ _ _ _ hname]
  simp [build, placeText, textOf, Piece.trimmed]

/-- A document that is one element with blanks before it. -/
theorem build_document (hgap : IsGap gap) (hname : IsName name)
    (hattributes : IsAttributes attributes) (hbody : Fills body nodes) :
    build [] [] (Token.lex (gap ++ elementText name attributes body)) =
      some (.element name attributes nodes) := by
  have hopened : ∀ tokens, build [] (piecesOf gap) (.opening name attributes false :: tokens) =
      build [{ name, attributes }] [] tokens := by
    intro tokens
    rw [build, placeText, textOf_of_isGap hgap]
    rfl
  rw [elementText, lex_text (notMem_of_isGap hgap), build_textTokens,
    lex_markup (markup?_opening hname hattributes _), List.singleton_append, hopened,
    hbody _ _ _ _ hname]
  simp [build, placeText, textOf, Piece.trimmed]

end SourceDocs.Xml
