import SourceDocs.Elements
import SourceDocs.Proofs.Pattern

set_option autoImplicit false

/-! # Comments and docstrings: what a scanner takes

A scanner goes through a text from left to right and looks at what the text goes on with. The
comments and docstrings of a file are what such a scanner takes (`Extractor.comments_scanned`):
comments after two slashes or between a slash with a star and a star with a slash, docstrings
between triple quotes, and after a hash sign the rest of each line (`lexemes_hashComment?`). What is
opened and not closed is passed over, so all that follows is scanned as if it stood alone. -/

namespace SourceDocs

namespace Elements

open Pattern (rest through? lexemes IsLexer)

variable {cs more taken opening closing line after : List Char} {n : Nat}

/-! ## Scanners -/

/-- From an opening text to the end of the line. -/
def toLineEnd? (opening cs : List Char) : Option (List Char) :=
  if opening <+: cs then some (cs.takeWhile (· ≠ '\n')) else none

/-- From an opening text through the first closing text after it. -/
def delimited? (opening closing cs : List Char) : Option (List Char) :=
  if opening <+: cs then (through? closing (cs.drop opening.length)).map (opening ++ ·) else none

/-- A comment after two slashes, or one between a slash with a star and a star with a slash. -/
def slashComment? (cs : List Char) : Option (List Char) :=
  (toLineEnd? ['/', '/'] cs).or (delimited? ['/', '*'] ['*', '/'] cs)

/-- A docstring between triple quotes of one kind. -/
def docstring? (cs : List Char) : Option (List Char) :=
  (delimited? ['"', '"', '"'] ['"', '"', '"'] cs).or
    (delimited? ['\'', '\'', '\''] ['\'', '\'', '\''] cs)

/-- The rest of a line from its first hash sign on. -/
def fromHash? (line : List Char) : Option (List Char) :=
  if '#' ∈ line then some (line.dropWhile (· ≠ '#')) else none

/-- The comments of the lines of a text, each from the first hash sign of its line on. -/
def hashComments (cs : List Char) : List (List Char) := (cs.splitOn '\n').filterMap fromHash?

theorem toLineEnd?_of_ne {ch first : Char} (hch : ch ≠ first) :
    toLineEnd? (first :: opening) (ch :: more) = none := by
  refine if_neg fun hopening => hch ?_
  exact (List.cons_prefix_cons.1 hopening).1.symm

theorem delimited?_of_ne {ch first : Char} (hch : ch ≠ first) :
    delimited? (first :: opening) closing (ch :: more) = none := by
  refine if_neg fun hopening => hch ?_
  exact (List.cons_prefix_cons.1 hopening).1.symm

theorem delimited?_eq_some (h : delimited? opening closing cs = some taken) :
    ∃ more inner, cs = opening ++ more ∧ through? closing more = some inner ∧
      taken = opening ++ inner := by
  unfold delimited? at h
  split at h
  · rename_i hopening
    obtain ⟨more, rfl⟩ := hopening
    rw [List.drop_left] at h
    obtain ⟨inner, hinner, rfl⟩ := Option.map_eq_some_iff.1 h
    exact ⟨more, inner, rfl, hinner, rfl⟩
  · cases h

/-- Where no closing text follows an opening one, nothing is taken from the latter on. -/
theorem delimited?_drop_of_unclosed (h : ¬closing <:+: more) (n : Nat) :
    delimited? opening closing ((opening ++ more).drop n) = none := by
  have hnot : ¬closing <:+: ((opening ++ more).drop n).drop opening.length := by
    rw [List.drop_drop, Nat.add_comm, ← List.drop_drop, List.drop_left]
    exact fun hclosing => h (hclosing.trans (List.drop_suffix _ _).isInfix)
  rw [delimited?, Pattern.through?_eq_none_iff.2 hnot]
  exact ite_self _

/-! ## Patterns as scanners -/

theorem notAmong_lineFeed : notAmong "\n" = fun ch => decide (ch ≠ '\n') := by
  funext ch
  have htext : "\n".toList = ['\n'] := rfl
  rw [notAmong, among, htext]
  by_cases hch : ch = '\n'
  · simp [hch]
  · simp [hch]

theorem isLexer_toLineEnd? (opening : String) (hne : opening.toList ≠ [])
    (hline : '\n' ∉ opening.toList) :
    (Pattern.lit opening ++ Pattern.most (notAmong "\n")).IsLexer
      (toLineEnd? opening.toList) := by
  have htake : ∀ cs, (opening.toList ++ cs).takeWhile (fun ch => decide (ch ≠ '\n')) =
      opening.toList ++ cs.takeWhile fun ch => decide (ch ≠ '\n') := by
    intro cs
    refine List.takeWhile_append_of_pos fun ch hch => decide_eq_true ?_
    rintro rfl
    exact hline hch
  refine .of_run (fun text pos => ?_) (fun cs taken h => ?_) fun cs taken h => ?_
  · rw [Pattern.run_append, Pattern.run_lit, toLineEnd?, notAmong_lineFeed]
    split
    · rename_i hopening
      obtain ⟨after, hafter⟩ := hopening
      have hrest : rest text (pos + opening.toList.length) = after := by
        rw [Pattern.rest_add, ← hafter, List.drop_left]
      rw [Pattern.run_most rfl, Option.map_some, ← hafter, htake, List.length_append,
        ← Nat.add_assoc, ← hrest]
      rfl
    · rfl
  · unfold toLineEnd? at h
    split at h
    · rename_i hopening
      obtain ⟨after, rfl⟩ := hopening
      rw [htake] at h
      cases h
      exact List.append_ne_nil_of_left_ne_nil hne _
    · cases h
  · unfold toLineEnd? at h
    split at h
    · cases h
      exact List.takeWhile_prefix _
    · cases h

theorem isLexer_delimited? (opening closing : String) (hne : opening.toList ≠ []) :
    (Pattern.lit opening ++ Pattern.fewest (fun _ => true) ++ Pattern.lit closing).IsLexer
      (delimited? opening.toList closing.toList) := by
  refine .of_run (fun text pos => ?_) (fun cs taken h => ?_) fun cs taken h => ?_
  · rw [Pattern.run_append, Pattern.run_append, Pattern.run_lit, delimited?]
    simp only [← Pattern.run_append, Pattern.run_fewest_lit, Pattern.Cursor.at, Pattern.rest_add]
    split
    · rw [Option.map_map]
      refine congrArg (Option.map · _) (funext fun inner => ?_)
      simp only [Function.comp_apply, List.length_append, Nat.add_assoc]
    · rfl
  · obtain ⟨more, inner, -, -, rfl⟩ := delimited?_eq_some h
    exact List.append_ne_nil_of_left_ne_nil hne _
  · obtain ⟨more, inner, rfl, hinner, rfl⟩ := delimited?_eq_some h
    exact (List.prefix_append_right_inj _).2 (Pattern.prefix_of_through? hinner)

theorem isLexer_hashComment : hashComment.IsLexer (toLineEnd? ['#']) :=
  isLexer_toLineEnd? "#" (by decide) (by decide)

theorem isLexer_slashComment : slashComment.IsLexer slashComment? :=
  (isLexer_toLineEnd? "//" (by decide) (by decide)).orElse
    (isLexer_delimited? "/*" "*/" (by decide))

theorem isLexer_tripleQuoted : tripleQuoted.IsLexer docstring? :=
  (isLexer_delimited? "\"\"\"" "\"\"\"" (by decide)).orElse
    (isLexer_delimited? "'''" "'''" (by decide))

/-! ## Hash signs, line by line -/

/-- A scan for hash signs takes at most one comment from a line. -/
theorem lexemes_line (hline : '\n' ∉ line) (hafter : after.takeWhile (· ≠ '\n') = []) :
    lexemes (toLineEnd? ['#']) (line ++ after) =
      (fromHash? line).toList ++ lexemes (toLineEnd? ['#']) after := by
  induction line with
  | nil => rfl
  | cons ch line ih =>
    have hrest : '\n' ∉ line := fun hmem => hline (List.mem_cons_of_mem _ hmem)
    by_cases hch : ch = '#'
    · -- the comment goes on to the end of the line
      subst hch
      have hall : ∀ ch ∈ '#' :: line, decide (ch ≠ '\n') = true := by
        refine fun ch hmem => decide_eq_true ?_
        rintro rfl
        exact hline hmem
      have hcomment : toLineEnd? ['#'] (('#' :: line) ++ after) = some ('#' :: line) := by
        rw [toLineEnd?, if_pos ⟨line ++ after, rfl⟩, List.takeWhile_append_of_pos hall, hafter,
          List.append_nil]
      have hfrom : fromHash? ('#' :: line) = some ('#' :: line) := by
        simp [fromHash?]
      rw [Pattern.lexemes_of_some hcomment (List.cons_ne_nil _ _) (List.prefix_append _ _),
        List.drop_left, hfrom]
      rfl
    · have hfrom : fromHash? (ch :: line) = fromHash? line := by
        simp [fromHash?, hch, Ne.symm hch]
      rw [List.cons_append, Pattern.lexemes_of_none (toLineEnd?_of_ne hch), ih hrest, hfrom]

/-- A text is a line, or else a line and the lines after a line feed. -/
theorem exists_line (cs : List Char) :
    ∃ line, '\n' ∉ line ∧ (cs = line ∨ ∃ more, cs = line ++ '\n' :: more) := by
  by_cases hmem : '\n' ∈ cs
  · obtain ⟨line, more, rfl, hline⟩ := List.eq_append_cons_of_mem hmem
    exact ⟨line, hline, Or.inr ⟨more, rfl⟩⟩
  · exact ⟨cs, hmem, Or.inl rfl⟩

/-- **Scanning for hash signs is going through the lines.** -/
theorem lexemes_hashComment? (cs : List Char) :
    lexemes (toLineEnd? ['#']) cs = hashComments cs := by
  induction hlength : cs.length using Nat.strong_induction_on generalizing cs with
  | _ length ih =>
    obtain ⟨line, hline, hcs | ⟨more, rfl⟩⟩ := exists_line cs
    · have hscan : lexemes (toLineEnd? ['#']) (line ++ []) =
          (fromHash? line).toList ++ lexemes (toLineEnd? ['#']) [] := lexemes_line hline rfl
      rw [List.append_nil, Pattern.lexemes, List.append_nil] at hscan
      rw [hcs, hscan, hashComments, List.splitOn_eq_singleton hline]
      cases hfrom : fromHash? line <;> simp [hfrom]
    · have hbreak : toLineEnd? ['#'] ('\n' :: more) = none := toLineEnd?_of_ne (by decide)
      have hmore : lexemes (toLineEnd? ['#']) more = hashComments more :=
        ih more.length (by simp at hlength; omega) more rfl
      rw [lexemes_line hline rfl, Pattern.lexemes_of_none hbreak, hmore, hashComments, hashComments,
        List.splitOn_append_cons_self, List.splitOn_eq_singleton hline, List.filterMap_append]
      cases hfrom : fromHash? line <;> simp [hfrom]

/-! ## What is not closed -/

/-- A slash with a star that no star with a slash follows is no comment, nor part of one. -/
theorem lexemes_slashComment?_unclosed (h : ¬['*', '/'] <:+: more) :
    lexemes slashComment? (['/', '*'] ++ more) = lexemes slashComment? more := by
  have hslash : slashComment? (['/', '*'] ++ more) = none := by
    have hline : toLineEnd? ['/', '/'] (['/', '*'] ++ more) = none := by
      refine if_neg fun hopening => ?_
      simp at hopening
    rw [slashComment?, hline]
    exact delimited?_drop_of_unclosed h 0
  have hstar : slashComment? ('*' :: more) = none := by
    rw [slashComment?, toLineEnd?_of_ne (by decide), delimited?_of_ne (by decide)]
    rfl
  rw [List.cons_append, List.singleton_append] at hslash ⊢
  rw [Pattern.lexemes_of_none hslash, Pattern.lexemes_of_none hstar]

/-- A triple quote that no other follows is no docstring, nor part of one. -/
theorem lexemes_docstring?_unclosed {quote : Char} (hquote : quote = '"' ∨ quote = '\'')
    (h : ¬[quote, quote, quote] <:+: more) :
    lexemes docstring? ([quote, quote, quote] ++ more) = lexemes docstring? more := by
  have hnone : ∀ n < 3, docstring? (([quote, quote, quote] ++ more).drop n) = none := by
    intro n hn
    have hsame : delimited? [quote, quote, quote] [quote, quote, quote]
        (([quote, quote, quote] ++ more).drop n) = none := delimited?_drop_of_unclosed h n
    obtain ⟨after, hafter⟩ :
        ∃ after, ([quote, quote, quote] ++ more).drop n = quote :: after := by
      match n, hn with
      | 0, _ => exact ⟨_, rfl⟩
      | 1, _ => exact ⟨_, rfl⟩
      | 2, _ => exact ⟨_, rfl⟩
    rw [hafter] at hsame ⊢
    rw [docstring?]
    rcases hquote with rfl | rfl
    · rw [hsame, delimited?_of_ne (by decide)]
      rfl
    · rw [hsame, delimited?_of_ne (by decide)]
      rfl
  exact Pattern.lexemes_drop hnone

end Elements

namespace Extractor

open Elements

variable {name : String} {e : Extractor}

/-- The patterns for comments and docstrings are those of Python, or those of all other
languages. -/
theorem patterns_of_mem (h : (name, e) ∈ all) : for? (.known name) = some e ∧
    e.comments = (if name = "Python" then hashComment else slashComment) ∧
    e.docstrings = if name = "Python" then some tripleQuoted else none := by
  simp only [all, List.mem_cons, List.not_mem_nil, or_false, Prod.mk.injEq] at h
  rcases h with ⟨rfl, rfl⟩ | ⟨rfl, rfl⟩ | ⟨rfl, rfl⟩ | ⟨rfl, rfl⟩ | ⟨rfl, rfl⟩ | ⟨rfl, rfl⟩ | ⟨rfl, rfl⟩
  all_goals exact ⟨rfl, rfl, rfl⟩

/-- **Comments and docstrings are what a scanner takes.** -/
theorem comments_scanned (content : String) :
    (∀ name e, (name, e) ∈ all →
      extractElements? (.known name) content = some (e.extract content) ∧
      (e.extract content).comments =
        (if name = "Python" then hashComments content.toList
          else Pattern.lexemes slashComment? content.toList).map String.ofList ∧
      (e.extract content).docstrings =
        if name = "Python" then some ((Pattern.lexemes docstring? content.toList).map String.ofList)
        else none) ∧
    (∀ more, ¬['*', '/'] <:+: more → Pattern.lexemes slashComment? (['/', '*'] ++ more) =
      Pattern.lexemes slashComment? more) ∧
    ∀ quote more, quote = '"' ∨ quote = '\'' → ¬[quote, quote, quote] <:+: more →
      Pattern.lexemes docstring? ([quote, quote, quote] ++ more) =
        Pattern.lexemes docstring? more := by
  refine ⟨fun name e hmem => ?_, fun more => lexemes_slashComment?_unclosed,
    fun quote more => lexemes_docstring?_unclosed⟩
  obtain ⟨hfor, hcomments, hdocstrings⟩ := patterns_of_mem hmem
  refine ⟨?_, ?_, ?_⟩
  · rw [extractElements?, hfor]
    rfl
  · show e.comments.texts content.toList.toArray = _
    rw [hcomments]
    split
    · rw [Pattern.texts_eq_lexemes isLexer_hashComment, lexemes_hashComment?]
    · rw [Pattern.texts_eq_lexemes isLexer_slashComment]
  · show e.docstrings.map (Pattern.texts · content.toList.toArray) = _
    rw [hdocstrings]
    split
    · rw [Option.map_some, Pattern.texts_eq_lexemes isLexer_tripleQuoted]
    · rfl

/-- A comment that is not closed does not hide the one in it. -/
theorem comments_scanned_unclosed :
    ∃ e, ("C", e) ∈ all ∧ ¬['*', '/'] <:+: " a // b".toList ∧
      (e.extract "/* a // b").comments = ["// b"] := by
  obtain ⟨hscanned, hunclosed, -⟩ := comments_scanned "/* a // b"
  have hmem : ("C", { functions := cFunction, keywords := cKeywords, comments := slashComment }) ∈
      all := by
    simp [all]
  obtain ⟨-, hcomments, -⟩ := hscanned _ _ hmem
  have hrest : ¬['*', '/'] <:+: " a // b".toList := by decide
  have hinner : Pattern.lexemes slashComment? " a // b".toList = ["// b".toList] := by
    decide +kernel
  have htext : "/* a // b".toList = ['/', '*'] ++ " a // b".toList := by decide
  rw [if_neg (by decide), htext, hunclosed _ hrest, hinner] at hcomments
  exact ⟨_, hmem, hrest, hcomments⟩

end Extractor

end SourceDocs
