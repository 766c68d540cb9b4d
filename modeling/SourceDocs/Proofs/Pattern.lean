import Mathlib.Data.List.Infix
import Mathlib.Data.List.TakeWhile
import SourceDocs.Pattern

set_option autoImplicit false

/-! # Patterns: matches as lexemes

How a pattern matches at a position depends on what is left of the text there (`Pattern.rest`), so
the ways in which simple patterns match are told by lists of characters (`run_lit`, `run_most`,
`run_fewest_lit`). If the preferred match at each position is what a lexer takes there, then all
matches are the lexemes of the text (`texts_eq_lexemes`). -/

namespace SourceDocs

namespace Pattern

variable {text : Array Char} {p q : Pattern} {c r : Cursor} {k : Cursor → Option Cursor}
  {accept : Char → Bool} {pos n : Nat} {ch : Char} {cs more : List Char}

/-! ## What is left of a text -/

/-- What is left of a text from a position on. -/
def rest (text : Array Char) (pos : Nat) : List Char := text.toList.drop pos

theorem length_rest (text : Array Char) (pos : Nat) : (rest text pos).length = text.size - pos := by
  rw [rest, List.length_drop, Array.length_toList]

theorem rest_add (text : Array Char) (pos n : Nat) : rest text (pos + n) = (rest text pos).drop n := by
  rw [rest, rest, List.drop_drop]

theorem getElem?_of_rest_nil (h : rest text pos = []) : text[pos]? = none := by
  rw [Array.getElem?_eq_none_iff]
  have hlength := length_rest text pos
  rw [h, List.length_nil] at hlength
  omega

theorem getElem?_of_rest_cons (h : rest text pos = ch :: more) : text[pos]? = some ch := by
  rw [← Array.getElem?_toList, ← List.head?_drop]
  exact congrArg List.head? h

theorem rest_succ_of_cons (h : rest text pos = ch :: more) : rest text (pos + 1) = more := by
  rw [rest_add, h]
  rfl

theorem slice_eq_take (text : Array Char) (pos n : Nat) :
    (Span.mk pos (pos + n)).slice text = (rest text pos).take n := by
  simp [Span.slice, rest, List.extract_eq_take_drop]

/-! ## Ways to match -/

theorem run_append : run text (p ++ q) c k = run text p c fun c' => run text q c' k := rfl

theorem run_orElse :
    run text (orElse p q) c k = (run text p c k).or (run text q c k) := by
  rw [run]
  cases run text p c k with
  | some r => rfl
  | none => rfl

theorem matchAt?_eq_map : matchAt? text p pos =
    (run text p { pos } some).map fun c => ⟨⟨pos, c.pos⟩, c.name?⟩ := by
  rw [matchAt?]
  cases run text p { pos } some with
  | some r => rfl
  | none => rfl

/-- A literal matches where the text goes on with it. -/
theorem run_lit (s : String) : run text (lit s) c k =
    if s.toList <+: rest text c.pos then k (c.at (c.pos + s.toList.length)) else none := by
  rw [lit]
  generalize s.toList = cs
  induction cs generalizing c with
  | nil => rw [if_pos List.nil_prefix]; rfl
  | cons ch cs ih =>
    rw [List.foldr_cons, run_append, run]
    cases hrest : rest text c.pos with
    | nil => simp [getElem?_of_rest_nil hrest]
    | cons x more =>
      rw [getElem?_of_rest_cons hrest]
      have hmore : rest text (c.at (c.pos + 1)).pos = more := rest_succ_of_cons hrest
      have hcursor : (c.at (c.pos + 1)).at ((c.at (c.pos + 1)).pos + cs.length) =
          c.at (c.pos + (cs.length + 1)) := by
        rw [Nat.add_comm cs.length 1, ← Nat.add_assoc]
        rfl
      simp only [beq_iff_eq, List.cons_prefix_cons, List.length_cons, ih, hmore, hcursor]
      by_cases hx : x = ch
      · simp [hx]
      · simp [hx, Ne.symm hx]

/-- The characters of a class that a text goes on with. -/
theorem reach_eq (hbound : text.size - pos ≤ n) :
    reach text accept n pos = pos + ((rest text pos).takeWhile accept).length := by
  induction n generalizing pos with
  | zero =>
    have hnil : rest text pos = [] := by
      rw [← List.length_eq_zero_iff, length_rest]
      omega
    rw [hnil]
    rfl
  | succ n ih =>
    rw [reach]
    cases hrest : rest text pos with
    | nil => simp [getElem?_of_rest_nil hrest]
    | cons x more =>
      rw [getElem?_of_rest_cons hrest]
      by_cases hx : accept x
      · have hmore : reach text accept n (pos + 1) = pos + 1 + (more.takeWhile accept).length := by
          rw [ih (by omega), rest_succ_of_cons hrest]
        simp only [hx, if_true, hmore, List.takeWhile_cons_of_pos, List.length_cons]
        omega
      · simp [hx]

theorem reach_sub (accept : Char → Bool) (c : Cursor) :
    reach text accept (text.size - c.pos) c.pos - c.pos =
      ((rest text c.pos).takeWhile accept).length := by
  rw [reach_eq (Nat.le_refl _)]
  omega

/-- The longest way is taken if it is accepted. -/
theorem run_most
    (hk : k (c.at (c.pos + ((rest text c.pos).takeWhile accept).length)) = some r) :
    run text (most accept) c k = some r := by
  rw [run, reach_sub, longestFirst.eq_def, hk]

theorem run_fewest_all (c : Cursor) (k : Cursor → Option Cursor) :
    run text (fewest fun _ => true) c k = shortestFirst k c (rest text c.pos).length := by
  rw [run, reach_sub, List.takeWhile_eq_self_iff.2 fun _ _ => rfl]

/-! ## Up to the first occurrence of a text -/

/-- The characters through the first occurrence of `close`. -/
def through? (close : List Char) : List Char → Option (List Char)
  | [] => if close = [] then some [] else none
  | ch :: more =>
    if close <+: ch :: more then some close else (through? close more).map (ch :: ·)

theorem through?_eq_none_iff {close : List Char} : through? close cs = none ↔ ¬close <:+: cs := by
  induction cs with
  | nil =>
    rw [through?, List.infix_nil]
    split
    · simp_all
    · simp_all
  | cons ch more ih =>
    rw [through?, List.infix_cons_iff]
    split
    · simp_all
    · simp_all

theorem prefix_of_through? {close taken : List Char} (h : through? close cs = some taken) :
    taken <+: cs := by
  induction cs generalizing taken with
  | nil =>
    rw [through?] at h
    split at h
    · cases h
      exact List.nil_prefix
    · cases h
  | cons ch more ih =>
    rw [through?] at h
    split at h
    · rename_i hclose
      cases h
      exact hclose
    · obtain ⟨taken, htaken, rfl⟩ := Option.map_eq_some_iff.1 h
      exact List.cons_prefix_cons.2 ⟨rfl, ih htaken⟩

/-- As few characters as possible and then a literal: what goes through its first occurrence. -/
theorem run_fewest_lit (close : String) (c : Cursor) :
    run text (fewest (fun _ => true) ++ lit close) c some =
      (through? close.toList (rest text c.pos)).map fun taken => c.at (c.pos + taken.length) := by
  rw [run_append, run_fewest_all]
  generalize hcs : rest text c.pos = cs
  induction cs generalizing c with
  | nil =>
    rw [List.length_nil, shortestFirst, run_lit, hcs, through?]
    by_cases hclose : close.toList = []
    · simp [hclose]
    · simp [hclose]
  | cons x more ih =>
    rw [List.length_cons, shortestFirst, run_lit, hcs, through?]
    by_cases hclose : close.toList <+: x :: more
    · simp [hclose]
    · have hmore := ih (c.at (c.pos + 1)) (rest_succ_of_cons hcs)
      simp only [if_neg hclose, hmore, Option.map_map]
      refine congrArg (Option.map · _) (funext fun taken => ?_)
      simp only [Function.comp_apply, List.length_cons, Cursor.at]
      rw [Nat.add_comm taken.length 1, Nat.add_assoc]

/-! ## Lexemes -/

/-- What a lexer takes from a text, from left to right: at each position what it finds there, and
then on from its end, or else nothing, and on from the next character. -/
def lexemes (lexeme? : List Char → Option (List Char)) (cs : List Char) : List (List Char) :=
  match cs with
  | [] => []
  | ch :: more =>
    match lexeme? (ch :: more) with
    | some taken => taken :: lexemes lexeme? (more.drop (taken.length - 1))
    | none => lexemes lexeme? more
  termination_by cs.length
  decreasing_by
    · rw [List.length_drop, List.length_cons]
      omega
    · exact Nat.lt_succ_self _

/-- Whether the preferred matches of a pattern are what a lexer takes, which is never nothing. -/
structure IsLexer (p : Pattern) (lexeme? : List Char → Option (List Char)) : Prop where
  matchAt?_eq : ∀ text pos, matchAt? text p pos =
    (lexeme? (rest text pos)).map fun taken => ⟨⟨pos, pos + taken.length⟩, none⟩
  ne_nil : ∀ cs taken, lexeme? cs = some taken → taken ≠ []
  isPrefix : ∀ cs taken, lexeme? cs = some taken → taken <+: cs

variable {lexeme? lexeme?' : List Char → Option (List Char)} {taken : List Char}

theorem IsLexer.of_run
    (hrun : ∀ text pos, run text p { pos } some =
      (lexeme? (rest text pos)).map fun taken => { pos := pos + taken.length })
    (hne : ∀ cs taken, lexeme? cs = some taken → taken ≠ [])
    (hpre : ∀ cs taken, lexeme? cs = some taken → taken <+: cs) : p.IsLexer lexeme? where
  matchAt?_eq text pos := by
    rw [matchAt?_eq_map, hrun, Option.map_map]
    rfl
  ne_nil := hne
  isPrefix := hpre

/-- The first of two patterns decides where both match. -/
theorem IsLexer.orElse (hp : p.IsLexer lexeme?) (hq : q.IsLexer lexeme?') :
    (orElse p q).IsLexer fun cs => (lexeme? cs).or (lexeme?' cs) where
  matchAt?_eq text pos := by
    have hp' := hp.matchAt?_eq text pos
    have hq' := hq.matchAt?_eq text pos
    rw [matchAt?_eq_map] at hp' hq' ⊢
    rw [run_orElse, Option.map_or, hp', hq', Option.map_or]
  ne_nil cs taken h := by
    rcases Option.or_eq_some_iff.1 h with h | ⟨-, h⟩
    · exact hp.ne_nil cs taken h
    · exact hq.ne_nil cs taken h
  isPrefix cs taken h := by
    rcases Option.or_eq_some_iff.1 h with h | ⟨-, h⟩
    · exact hp.isPrefix cs taken h
    · exact hq.isPrefix cs taken h

theorem lexemes_of_some (hlexeme : lexeme? cs = some taken) (htaken : taken ≠ [])
    (hpre : taken <+: cs) :
    lexemes lexeme? cs = taken :: lexemes lexeme? (cs.drop taken.length) := by
  obtain ⟨x, xs, rfl⟩ := List.exists_cons_of_ne_nil htaken
  obtain ⟨after, rfl⟩ := hpre
  rw [List.cons_append] at hlexeme ⊢
  rw [lexemes]
  simp only [hlexeme]
  rfl

theorem lexemes_of_none (hlexeme : lexeme? (ch :: more) = none) :
    lexemes lexeme? (ch :: more) = lexemes lexeme? more := by
  rw [lexemes]
  simp only [hlexeme]

/-- Nothing is taken before the first position where something is found. -/
theorem lexemes_drop (h : ∀ i < n, lexeme? (cs.drop i) = none) :
    lexemes lexeme? cs = lexemes lexeme? (cs.drop n) := by
  induction n generalizing cs with
  | zero => rfl
  | succ n ih =>
    cases cs with
    | nil => rfl
    | cons ch more =>
      rw [lexemes_of_none (h 0 (Nat.succ_pos n)), List.drop_succ_cons]
      exact ih fun i hi => h (i + 1) (Nat.succ_lt_succ hi)

/-! ## Searches -/

theorem findFrom?_of_some {m : Match} (h : matchAt? text p pos = some m) :
    findFrom? text p n pos = some m := by
  rw [findFrom?.eq_def, h]

theorem findFrom?_of_none (h : matchAt? text p pos = none) :
    findFrom? text p (n + 1) pos = findFrom? text p n (pos + 1) := by
  rw [findFrom?.eq_def, h]

theorem findAllFrom_of_some {m : Match} (hpos : pos ≤ text.size)
    (h : matchAt? text p pos = some m) :
    findAllFrom text p (n + 1) pos =
      m :: findAllFrom text p n (max m.span.stop (m.span.start + 1)) := by
  rw [findAllFrom, if_neg (by omega), findFrom?_of_some h]

theorem findAllFrom_of_none (hpos : pos < text.size) (h : matchAt? text p pos = none) :
    findAllFrom text p (n + 1) pos = findAllFrom text p (n + 1) (pos + 1) := by
  have hleft : text.size - pos = text.size - (pos + 1) + 1 := by omega
  rw [findAllFrom, findAllFrom, if_neg (by omega), if_neg (by omega), hleft,
    findFrom?_of_none h]

theorem findAllFrom_of_end (h : matchAt? text p text.size = none) :
    findAllFrom text p (n + 1) text.size = [] := by
  rw [findAllFrom, if_neg (by omega), Nat.sub_self, findFrom?.eq_def, h]

theorem map_slice_findAllFrom (hp : p.IsLexer lexeme?) (hpos : pos ≤ text.size)
    (hbound : text.size - pos < n) :
    (findAllFrom text p n pos).map (fun m => m.span.slice text) =
      lexemes lexeme? (rest text pos) := by
  -- each turn of a search comes nearer to the end, and one that finds something uses up the bound
  induction hleft : text.size - pos using Nat.strong_induction_on generalizing pos n with
  | _ left ih =>
    obtain ⟨n, rfl⟩ : ∃ n', n = n' + 1 := ⟨n - 1, by omega⟩
    have hmatch := hp.matchAt?_eq text pos
    cases hlexeme : lexeme? (rest text pos) with
    | some taken =>
      rw [hlexeme, Option.map_some] at hmatch
      have hpre := hp.isPrefix _ _ hlexeme
      have hlength := hpre.length_le
      have hpositive := List.length_pos_iff.2 (hp.ne_nil _ _ hlexeme)
      rw [length_rest] at hlength
      have hslice : (Span.mk pos (pos + taken.length)).slice text = taken := by
        rw [slice_eq_take]
        exact (List.prefix_iff_eq_take.1 hpre).symm
      have hnext : max (pos + taken.length) (pos + 1) = pos + taken.length := by omega
      rw [findAllFrom_of_some hpos hmatch, List.map_cons,
        lexemes_of_some hlexeme (hp.ne_nil _ _ hlexeme) hpre, ← rest_add]
      simp only [hslice, hnext]
      rw [ih _ (by omega) (by omega) (by omega) rfl]
    | none =>
      rw [hlexeme, Option.map_none] at hmatch
      by_cases hend : pos = text.size
      · subst hend
        have hnil : rest text text.size = [] := by
          rw [← List.length_eq_zero_iff, length_rest, Nat.sub_self]
        rw [findAllFrom_of_end hmatch, hnil, lexemes]
        rfl
      · obtain ⟨x, more, hrest⟩ : ∃ x more, rest text pos = x :: more := by
          refine List.exists_cons_of_ne_nil fun hnil => hend ?_
          have hlength := length_rest text pos
          rw [hnil, List.length_nil] at hlength
          omega
        rw [findAllFrom_of_none (by omega) hmatch, ih _ (by omega) (by omega) (by omega) rfl,
          rest_succ_of_cons hrest, hrest, lexemes_of_none (hrest ▸ hlexeme)]

/-- **The texts of all matches are the lexemes.** -/
theorem texts_eq_lexemes (hp : p.IsLexer lexeme?) (text : Array Char) :
    p.texts text = (lexemes lexeme? text.toList).map String.ofList := by
  have hlexemes : (findAllFrom text p (text.size + 1) 0).map (fun m => m.span.slice text) =
      lexemes lexeme? text.toList :=
    map_slice_findAllFrom hp (Nat.zero_le _) (Nat.lt_succ_self _)
  rw [texts, findAll, ← hlexemes, List.map_map]
  rfl

end Pattern

end SourceDocs
