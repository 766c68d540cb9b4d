import SourceDocs.Elements
import SourceDocs.Proofs.Pattern.Ways

set_option autoImplicit false

/-! # Names of functions and classes: whole words of the text

A name is what a pattern takes between two parts that keep it apart from other words
(`names_between`), or else a word that nothing after it makes shorter (`names_longest`). So the
names of the functions and classes of a file stand in it one after the other, and no word is cut
(`Extractor.names_whole`). -/

namespace SourceDocs

namespace Elements

open Pattern Text

variable {p q pre body link post : Pattern} {cs xs ys : List Char} {ch : Char}

/-! ## Words -/

/-- One or more word characters. -/
def IsWord (cs : List Char) : Prop :=
  cs ≠ [] ∧ ∀ ch ∈ cs, isWord ch = true

/-- A word and two colons. -/
def IsScope (cs : List Char) : Prop :=
  ∃ word, IsWord word ∧ cs = word ++ [':', ':']

/-- Scopes and a word, which a tilde may precede. -/
def IsQualified (cs : List Char) : Prop :=
  ∃ (scopes : List (List Char)) (tilde word : List Char), (∀ x ∈ scopes, IsScope x) ∧
    (tilde = [] ∨ tilde = ['~']) ∧ IsWord word ∧ cs = scopes.flatten ++ tilde ++ word

/-- A parenthesis follows, spaces and tabs before it apart. -/
def IsCalled (x : Place) : Prop :=
  ∃ gap more, x.after = gap ++ '(' :: more ∧ ∀ ch ∈ gap, isGap ch = true

/-- A text does not end with a word character. -/
def EndsApart (cs : List Char) : Prop :=
  ∀ ch ∈ cs.getLast?, isWord ch = false

/-- A text does not start with a word character. -/
def StartsApart (cs : List Char) : Prop :=
  ∀ ch ∈ cs.head?, isWord ch = false

instance : DecidablePred EndsApart := fun cs =>
  decidable_of_iff (cs.getLast?.all (!isWord ·) = true) (by simp [EndsApart, Option.all_eq_true])

instance : DecidablePred StartsApart := fun cs =>
  decidable_of_iff (cs.head?.all (!isWord ·) = true) (by simp [StartsApart, Option.all_eq_true])

/-- No word goes on beyond a place. -/
def IsCutOff (x : Place) : Prop :=
  EndsApart x.before ∧ StartsApart x.after

theorem EndsApart.append (hys : EndsApart ys) (h : ys = [] → EndsApart xs) :
    EndsApart (xs ++ ys) := by
  intro ch hch
  rw [List.getLast?_append] at hch
  cases hlast : ys.getLast? with
  | none =>
    rw [hlast, Option.none_or] at hch
    exact h (List.getLast?_eq_none_iff.1 hlast) ch hch
  | some x =>
    rw [hlast, Option.some_or] at hch
    exact hys ch (hlast ▸ hch)

theorem StartsApart.append (hxs : StartsApart xs) (h : xs = [] → StartsApart ys) :
    StartsApart (xs ++ ys) := by
  cases xs with
  | nil => exact h rfl
  | cons x xs => exact hxs

theorem endsApart_of_forall (h : ∀ ch ∈ cs, isWord ch = false) : EndsApart cs :=
  fun ch hch => h ch (List.mem_of_getLast? hch)

theorem startsApart_of_forall (h : ∀ ch ∈ cs, isWord ch = false) : StartsApart cs :=
  fun ch hch => h ch (List.mem_of_head? hch)

/-- No blank is a word character. -/
theorem isWord_of_isBlank (h : isBlank ch = true) : isWord ch = false := by
  have hcode : ch.toNat ∈ [9, 10, 11, 12, 13, 0x20, 0x85, 0xA0, 0x1680, 0x2000, 0x2001, 0x2002,
      0x2003, 0x2004, 0x2005, 0x2006, 0x2007, 0x2008, 0x2009, 0x200A, 0x2028, 0x2029, 0x202F,
      0x205F, 0x3000] := by
    simp [isBlank] at h
    simp
    omega
  simp only [isWord, inRanges, ← Array.any_toList]
  generalize ch.toNat = n at hcode
  revert n
  decide +kernel

theorem isWord_of_among {s : String} (hs : s.toList.all (!isWord ·) = true)
    (h : among s ch = true) : isWord ch = false := by
  have hword := List.all_eq_true.1 hs ch (by simpa [among] using h)
  simpa using hword

/-! ## Parts that keep words apart -/

/-- A pattern takes something, and no word character at the end of it. -/
def IsClosed (p : Pattern) : Prop :=
  p.Takes fun taken => taken ≠ [] ∧ EndsApart taken

/-- A pattern takes something, and no word character at the start of it. -/
def IsOpened (p : Pattern) : Prop :=
  p.Takes fun taken => taken ≠ [] ∧ StartsApart taken

theorem IsClosed.append_left (hq : IsClosed q) (p : Pattern) : IsClosed (p ++ q) := by
  have hp : p.Takes fun _ => True := fun _ _ _ _ _ => trivial
  refine hp.append hq fun first second _ hsecond => ⟨?_, hsecond.2.append fun hnil => ?_⟩
  · exact List.append_ne_nil_of_right_ne_nil _ hsecond.1
  · exact absurd hnil hsecond.1

theorem IsClosed.append (hp : IsClosed p) (hq : q.Takes EndsApart) : IsClosed (p ++ q) :=
  Takes.append hp hq fun _ _ hfirst hsecond =>
    ⟨List.append_ne_nil_of_left_ne_nil hfirst.1 _, hsecond.append fun _ => hfirst.2⟩

theorem IsOpened.append_right (hp : IsOpened p) (q : Pattern) : IsOpened (p ++ q) := by
  have hq : q.Takes fun _ => True := fun _ _ _ _ _ => trivial
  refine Takes.append hp hq fun first second hfirst _ => ⟨?_, hfirst.2.append fun hnil => ?_⟩
  · exact List.append_ne_nil_of_left_ne_nil hfirst.1 _
  · exact absurd hnil hfirst.1

theorem IsOpened.append (hp : p.Takes StartsApart) (hq : IsOpened q) : IsOpened (p ++ q) :=
  hp.append hq fun _ _ hfirst hsecond =>
    ⟨List.append_ne_nil_of_right_ne_nil _ hsecond.1, hfirst.append fun _ => hsecond.2⟩

theorem takes_blanks : blanks.Takes fun taken => ∀ ch ∈ taken, isWord ch = false :=
  (takes_most _).mono fun _ hall ch hch => isWord_of_isBlank (hall ch hch)

theorem isClosed_blanks1 : IsClosed blanks1 :=
  (takes_most1 _).mono fun _ hall =>
    ⟨hall.1, endsApart_of_forall fun ch hch => isWord_of_isBlank (hall.2 ch hch)⟩

theorem isOpened_lit {s : String} (hne : s.toList ≠ []) (h : StartsApart s.toList) :
    IsOpened (lit s) :=
  (takes_lit s).mono fun _ htaken => htaken ▸ ⟨hne, h⟩

theorem isClosed_lit {s : String} (hne : s.toList ≠ []) (h : EndsApart s.toList) :
    IsClosed (lit s) :=
  (takes_lit s).mono fun _ htaken => htaken ▸ ⟨hne, h⟩

/-! ## Names between two parts -/

/-- A name stands between what ends before it and what starts after it, neither with a word
character. -/
theorem names_between (pre body link post : Pattern) {N L : List Char → Prop}
    (hrun : ∀ text c k, run text p c k = run text pre c fun d => run text (named body) d fun e =>
      run text link e fun f => run text post f k)
    (hpre : ∀ ⦃text c d e before taken⦄, Way text pre c before d → Way text body d taken e →
      EndsApart (passed text d.pos))
    (hbody : body.Takes N) (hN : ∀ taken, N taken → taken ≠ [])
    (hlink : link.Takes fun taken => (taken ≠ [] ∧ StartsApart taken) ∧ L taken)
    (hnameless : link.isNameless = true ∧ post.isNameless = true) :
    p.Names fun x => IsCutOff x ∧ N x.part ∧ ∃ taken more, x.after = taken ++ more ∧ L taken := by
  intro text start m hstart hmatch
  rw [matchAt?_eq_map] at hmatch
  obtain ⟨r, hr, rfl⟩ := Option.map_eq_some_iff.1 hmatch
  rw [hrun] at hr
  obtain ⟨before, d, hbefore, hr⟩ := exists_way_of_run hr
  obtain ⟨taken, e, hnamed, hr⟩ := exists_way_of_run hr
  obtain ⟨after, f, hafter, hr⟩ := exists_way_of_run hr
  obtain ⟨others, g, hothers, hr⟩ := exists_way_of_run hr
  cases hr
  cases hnamed with
  | @named _ _ e _ hway =>
    have hname : r.name? = some ⟨d.pos, e.pos⟩ := by
      rw [hothers.name?_eq hnameless.2, hafter.name?_eq hnameless.1]
    have hrest : rest text e.pos = after ++ rest text f.pos := hafter.rest_eq
    obtain ⟨⟨hne, hstarts⟩, hL⟩ := hlink hafter
    have hsize : e.pos < text.size := by
      by_contra hend
      have hnil : rest text e.pos = [] := by
        rw [← List.length_eq_zero_iff, length_rest]
        omega
      exact hne (List.append_eq_nil_iff.1 (hrest ▸ hnil)).1
    refine ⟨⟨d.pos, e.pos⟩, hname, hbefore.le, hway.lt (hN _ (hbody hway)),
      hafter.le.trans hothers.le, hsize.le, ⟨hpre hbefore hway, ?_⟩, ?_, _, _, hrest, hL⟩
    · show StartsApart (rest text e.pos)
      rw [hrest]
      exact hstarts.append fun hnil => absurd hnil hne
    · show N ((Span.mk d.pos e.pos).slice text)
      rw [hway.slice_eq]
      exact hbody hway

/-! ## Names that nothing makes shorter -/

/-- Where a pattern matches within a word, it also matches where the word ends. -/
def LetsWordEnd (post : Pattern) : Prop :=
  ∀ ⦃text : Array Char⦄ ⦃c e r : Cursor⦄ ⦃xs : List Char⦄, run text post c some = some r →
    (∀ ch ∈ xs, isWord ch = true) → rest text c.pos = xs ++ rest text e.pos →
    (run text post e some).isSome = true

theorem letsWordEnd_empty : LetsWordEnd .empty :=
  fun _ _ _ _ _ _ _ _ => rfl

/-- What goes on to a brace goes on to it from the end of a word as well. -/
theorem letsWordEnd_most_brace {accept : Char → Bool} (hbrace : accept '\x7b' = false) :
    LetsWordEnd (most accept ++ lit "\x7b") := by
  intro text c e r xs h hxs hrest
  -- what is left at the end of the word goes on to the same brace
  have hleft : ∃ between more, rest text e.pos = between ++ '\x7b' :: more ∧
      ∀ ch ∈ between, accept ch = true := by
    obtain ⟨_, _, hway, -⟩ := exists_way_of_run h
    cases hway with
    | @seq _ _ _ d f taken brace hmost hlit =>
      have hall : ∀ ch ∈ taken, accept ch = true := takes_most accept hmost
      have hbraceText : brace = ['\x7b'] := takes_lit _ hlit
      have hto := hmost.rest_eq
      rw [hlit.rest_eq, hbraceText, hrest, List.append_eq_append_iff] at hto
      rcases hto with ⟨between, rfl, heq⟩ | ⟨between, rfl, heq⟩
      · exact ⟨between, _, heq, fun ch hch => hall ch (List.mem_append_right _ hch)⟩
      · cases between with
        | nil => exact ⟨[], _, heq.symm, fun _ hch => absurd hch List.not_mem_nil⟩
        | cons x between =>
          have hx : isWord x = true := hxs x (by simp)
          rw [← (List.cons.inj heq).1] at hx
          exact absurd hx (by decide)
  obtain ⟨between, more, hmore, hall⟩ := hleft
  have htake : (rest text e.pos).takeWhile accept = between := by
    rw [hmore, List.takeWhile_append_of_pos hall, List.takeWhile_cons_of_neg (by simp [hbrace]),
      List.append_nil]
  have hlit : "\x7b".toList <+: rest text (e.at (e.pos + between.length)).pos := by
    rw [Cursor.at, rest_add, hmore, List.drop_left]
    exact List.prefix_append ['\x7b'] more
  rw [run_append, run_most (htake ▸ (run_lit _).trans (if_pos hlit))]
  rfl

/-- A word is taken whole where what follows it lets it end. -/
theorem of_run_identifier {text : Array Char} {d r : Cursor} (hpost : LetsWordEnd post)
    (h : run text identifier d (fun e => run text post e some) = some r) :
    ∃ word, IsWord word ∧ rest text d.pos = word ++ rest text (d.pos + word.length) ∧
      StartsApart (rest text (d.pos + word.length)) ∧
      run text post ⟨d.pos + word.length, some ⟨d.pos, d.pos + word.length⟩⟩ some = some r := by
  rw [identifier, run, most1, run_append, run] at h
  cases hrest : rest text d.pos with
  | nil =>
    rw [getElem?_of_rest_nil hrest] at h
    cases h
  | cons ch more =>
    simp only [getElem?_of_rest_cons hrest] at h
    split at h
    · rename_i hch
      obtain rfl : rest text (d.pos + 1) = more := rest_succ_of_cons hrest
      have hword := List.takeWhile_prefix (l := rest text (d.pos + 1)) isWord
      have hall : ∀ ch ∈ (rest text (d.pos + 1)).takeWhile isWord, isWord ch = true :=
        fun ch hch => List.mem_takeWhile_imp hch
      -- whatever the rest of the pattern accepts, it accepts the longest word
      have hlongest := of_run_most h fun m hm hsome => by
        obtain ⟨r', hr'⟩ := Option.isSome_iff_exists.1 hsome
        exact hpost hr' (fun ch hch => hall ch (List.mem_of_mem_drop hch))
          (rest_add_of_isPrefix hword hm)
      have hstop : d.pos + 1 + ((rest text (d.pos + 1)).takeWhile isWord).length =
          d.pos + (ch :: (rest text (d.pos + 1)).takeWhile isWord).length := by
        rw [List.length_cons]
        omega
      have hleft : rest text (d.pos + 1 + ((rest text (d.pos + 1)).takeWhile isWord).length) =
          (rest text (d.pos + 1)).dropWhile isWord := by
        have hsplit := rest_add_of_isPrefix hword (Nat.zero_le _)
        rw [List.drop_zero, Nat.add_zero] at hsplit
        exact List.append_cancel_left (hsplit.symm.trans List.takeWhile_append_dropWhile.symm)
      refine ⟨ch :: (rest text (d.pos + 1)).takeWhile isWord, ⟨List.cons_ne_nil _ _, ?_⟩,
        ?_, ?_, ?_⟩
      · exact List.forall_mem_cons.2 ⟨hch, hall⟩
      · rw [← hstop, List.cons_append]
        exact congrArg (ch :: ·) (rest_add_of_isPrefix hword (Nat.zero_le _))
      · rw [← hstop, hleft]
        intro x hx
        have hhead := List.head?_dropWhile_not isWord (rest text (d.pos + 1))
        rwa [hx] at hhead
      · rw [← hstop]
        exact hlongest
    · cases h

/-- The word that follows what does not end with a word character is the name, all of it. -/
theorem names_longest (pre post : Pattern)
    (hrun : ∀ text c k, run text p c k = run text pre c fun d => run text identifier d fun e =>
      run text post e k)
    (hpre : IsClosed pre) (hpost : LetsWordEnd post) (hnameless : post.isNameless = true) :
    p.Names fun x => IsCutOff x ∧ IsWord x.part := by
  intro text start m hstart hmatch
  rw [matchAt?_eq_map] at hmatch
  obtain ⟨r, hr, rfl⟩ := Option.map_eq_some_iff.1 hmatch
  rw [hrun] at hr
  obtain ⟨before, d, hbefore, hr⟩ := exists_way_of_run hr
  obtain ⟨word, hword, hrest, hstarts, hr⟩ := of_run_identifier hpost hr
  obtain ⟨after, f, hafter, hf⟩ := exists_way_of_run hr
  cases hf
  have hpos := List.length_pos_iff.2 hword.1
  have hsize := congrArg List.length hrest
  rw [List.length_append, length_rest, length_rest] at hsize
  refine ⟨_, hafter.name?_eq hnameless, hbefore.le, Nat.lt_add_of_pos_right hpos, hafter.le, ?_,
    ⟨?_, hstarts⟩, ?_⟩
  · show d.pos + word.length ≤ text.size
    omega
  · show EndsApart (passed text d.pos)
    rw [hbefore.passed_eq]
    exact (hpre hbefore).2.append fun hnil => absurd hnil (hpre hbefore).1
  · show IsWord ((Span.mk d.pos (d.pos + word.length)).slice text)
    rw [slice_eq_take, hrest, List.take_left]
    exact hword

/-! ## The languages -/

theorem takes_startsApart_blanks : blanks.Takes StartsApart :=
  takes_blanks.mono fun _ => startsApart_of_forall

theorem takes_endsApart_blanks : blanks.Takes EndsApart :=
  takes_blanks.mono fun _ => endsApart_of_forall

theorem takes_endsApart_append (hp : p.Takes EndsApart) (hq : q.Takes EndsApart) :
    (p ++ q).Takes EndsApart :=
  hp.append hq fun _ _ hfirst hsecond => hsecond.append fun _ => hfirst

/-- What may be absent starts with no word character where it is opened. -/
theorem takes_startsApart_optional (hp : IsOpened p) : (optional p).Takes StartsApart :=
  (hp.mono fun _ h => h.2).optional fun _ h => by cases h

theorem takes_endsApart_optional (hp : IsClosed p) : (optional p).Takes EndsApart :=
  (hp.mono fun _ h => h.2).optional fun _ h => by cases h

/-- At a word edge where a word starts, none ends. -/
theorem endsApart_passed_of_wordEdge {text : Array Char} {pos : Nat}
    (hedge : wordBefore text pos ≠ wordAt text pos) (hword : IsWord xs)
    (hrest : rest text pos = xs ++ ys) : EndsApart (passed text pos) := by
  obtain ⟨x, xs, rfl⟩ := List.exists_cons_of_ne_nil hword.1
  have hat : wordAt text pos = true := by
    rw [wordAt, getElem?_of_rest_cons hrest]
    exact hword.2 x List.mem_cons_self
  have hsize := congrArg List.length hrest
  rw [length_rest, List.cons_append, List.length_cons] at hsize
  rw [hat, ne_eq, Bool.not_eq_true] at hedge
  intro ch hch
  cases pos with
  | zero => cases hch
  | succ pos =>
    have hpos : pos < text.size := by omega
    obtain ⟨last, hlast⟩ : ∃ last, text[pos]? = some last :=
      ⟨text[pos], Array.getElem?_eq_getElem hpos⟩
    rw [passed, List.getLast?_take, if_neg (Nat.succ_ne_zero pos), Nat.add_sub_cancel,
      Array.getElem?_toList, hlast, Option.some_or] at hch
    rw [wordBefore, wordAt, hlast] at hedge
    rwa [← Option.some.inj hch]

theorem endsApart_of_isClosed (hpre : IsClosed pre) {text : Array Char} {c d : Cursor}
    (h : Way text pre c cs d) : EndsApart (passed text d.pos) := by
  rw [h.passed_eq]
  exact (hpre h).2.append fun hnil => absurd hnil (hpre h).1

/-- A word between two parts of a pattern. -/
theorem names_word (pre link post : Pattern)
    (hrun : ∀ text c k, run text p c k = run text pre c fun d => run text identifier d fun e =>
      run text link e fun f => run text post f k)
    (hpre : IsClosed pre) (hlink : IsOpened link)
    (hnameless : link.isNameless = true ∧ post.isNameless = true) :
    p.Names fun x => IsCutOff x ∧ IsWord x.part := by
  have hnames := names_between pre _ link post hrun
    (fun _ _ _ _ _ _ hbefore _ => endsApart_of_isClosed hpre hbefore) (takes_most1 isWord)
    (fun _ h => h.1) (hlink.mono fun _ h => ⟨h, trivial⟩) hnameless
  exact hnames.mono fun x hx => ⟨hx.1, hx.2.1⟩

theorem isOpened_blanks_lit {s : String} (hne : s.toList ≠ []) (h : StartsApart s.toList) :
    IsOpened (blanks ++ lit s) :=
  .append takes_startsApart_blanks (isOpened_lit hne h)

theorem names_pythonFunction : pythonFunction.Names fun x => IsCutOff x ∧ IsWord x.part :=
  names_word
    (wordEdge ++ lit "def" ++ blanks1)
    (blanks ++ lit "(")
    (most (notAmong "\n") ++ lit ")" ++
      optional (blanks ++ lit "->" ++ blanks ++ most1 (notAmong ":\n")) ++ blanks ++ lit ":")
    (fun _ _ _ => rfl) (isClosed_blanks1.append_left _)
    (isOpened_blanks_lit (by decide) (by decide)) (by decide)

theorem names_pythonClass : pythonClass.Names fun x => IsCutOff x ∧ IsWord x.part := by
  have hbases : IsOpened (lit "(" ++ most (notAmong "\n") ++ lit ")") :=
    ((isOpened_lit (by decide) (by decide)).append_right _).append_right _
  exact names_word
    (wordEdge ++ lit "class" ++ blanks1)
    (blanks ++ (optional (lit "(" ++ most (notAmong "\n") ++ lit ")") ++ (blanks ++ lit ":")))
    .empty
    (fun _ _ _ => rfl) (isClosed_blanks1.append_left _)
    (.append takes_startsApart_blanks (.append (takes_startsApart_optional hbases)
      (isOpened_blanks_lit (by decide) (by decide)))) (by decide)

theorem names_javaFunction : javaFunction.Names fun x => IsCutOff x ∧ IsWord x.part :=
  names_word
    (wordEdge ++ firstOf (lit "public") [lit "protected", lit "private"] ++ blanks1 ++
      loop (firstOf (lit "static") [lit "final", lit "abstract", lit "synchronized",
        lit "native"] ++ blanks1) ++
      most1 (fun c => isWord c || among "<>[],.?" c) ++ blanks1)
    (blanks ++ lit "(")
    (most (notAmong ")") ++ lit ")" ++ blanks ++ optional (lit "throws" ++ blanks1 ++
      most1 (fun c => isWord c || isBlank c || among ".," c)) ++ lit "\x7b")
    (fun _ _ _ => rfl) (isClosed_blanks1.append_left _)
    (isOpened_blanks_lit (by decide) (by decide)) (by decide)

theorem names_javaClass : javaClass.Names fun x => IsCutOff x ∧ IsWord x.part :=
  names_longest (wordEdge ++ firstOf (lit "class") [lit "interface", lit "enum"] ++ blanks1)
    (most (notAmong "\x7b;") ++ lit "\x7b") (fun _ _ _ => rfl)
    (isClosed_blanks1.append_left _) (letsWordEnd_most_brace (by decide)) (by decide)

theorem names_cppClass : cppClass.Names fun x => IsCutOff x ∧ IsWord x.part :=
  names_longest (wordEdge ++ firstOf (lit "class") [lit "struct"] ++ blanks1)
    (most (notAmong ";\x7b()") ++ lit "\x7b") (fun _ _ _ => rfl)
    (isClosed_blanks1.append_left _) (letsWordEnd_most_brace (by decide)) (by decide)

theorem names_goFunction : goFunction.Names fun x => IsCutOff x ∧ IsWord x.part := by
  have hreceiver : IsClosed (lit "(" ++ most (notAmong ")") ++ lit ")" ++ blanks) :=
    ((isClosed_lit (by decide) (by decide)).append_left _).append takes_endsApart_blanks
  have hparameters : IsOpened (lit "[" ++ most (notAmong "]") ++ lit "]" ++ blanks) :=
    (((isOpened_lit (by decide) (by decide)).append_right _).append_right _).append_right _
  exact names_word
    (wordEdge ++ lit "func" ++ blanks1 ++
      optional (lit "(" ++ most (notAmong ")") ++ lit ")" ++ blanks))
    (blanks ++ (optional (lit "[" ++ most (notAmong "]") ++ lit "]" ++ blanks) ++ lit "("))
    .empty
    (fun _ _ _ => rfl)
    ((isClosed_blanks1.append_left _).append (takes_endsApart_optional hreceiver))
    (.append takes_startsApart_blanks (.append (takes_startsApart_optional hparameters)
      (isOpened_lit (by decide) (by decide)))) (by decide)

/-- After the word `function` and a word edge, a name that follows at once would be part of the word
before it. -/
theorem names_functionDeclaration :
    (wordEdge ++ lit "function" ++ wordEdge ++ blanks ++ optional (lit "*") ++ blanks ++
      identifier ++ blanks ++ lit "(").Names fun x => IsCutOff x ∧ IsWord x.part := by
  have hgap : (blanks ++ optional (lit "*") ++ blanks).Takes EndsApart :=
    takes_endsApart_append (takes_endsApart_append takes_endsApart_blanks
      (takes_endsApart_optional (isClosed_lit (by decide) (by decide)))) takes_endsApart_blanks
  refine Names.mono (names_between
    (wordEdge ++ lit "function" ++ wordEdge ++ (blanks ++ optional (lit "*") ++ blanks))
    (most1 isWord)
    (blanks ++ lit "(")
    .empty
    (fun _ _ _ => rfl) (fun text c d e before taken hbefore hword => ?_)
    (takes_most1 isWord) (fun _ h => h.1)
    ((isOpened_blanks_lit (s := "(") (by decide) (by decide)).mono fun _ h => ⟨h, trivial⟩)
    (by decide)) fun x hx => ⟨hx.1, hx.2.1⟩
  cases hbefore with
  | @seq _ _ _ d' _ _ gap hto hgapWay =>
    rw [hgapWay.passed_eq]
    refine (hgap hgapWay).append fun hnil => ?_
    subst hnil
    cases hto with
    | seq _ hedge =>
      cases hedge with
      | wordEdge hedge =>
        have hrest := hgapWay.rest_eq
        rw [List.nil_append, hword.rest_eq] at hrest
        exact endsApart_passed_of_wordEdge hedge (takes_most1 isWord hword) hrest

theorem names_javaScriptFunction :
    javaScriptFunction.Names fun x => IsCutOff x ∧ IsWord x.part :=
  names_functionDeclaration.orElse (names_word
    (wordEdge ++ firstOf (lit "const") [lit "let", lit "var"] ++ blanks1)
    (blanks ++ lit "=")
    (blanks ++ optional (lit "async" ++ blanks1) ++
      firstOf (lit "function" ++ wordEdge)
        [lit "(" ++ most (notAmong ")") ++ lit ")" ++ blanks ++ lit "=>",
          most1 isWord ++ blanks ++ lit "=>"])
    (fun _ _ _ => rfl) (isClosed_blanks1.append_left _)
    (isOpened_blanks_lit (by decide) (by decide)) (by decide))

theorem names_javaScriptClass : javaScriptClass.Names fun x => IsCutOff x ∧ IsWord x.part :=
  names_longest (wordEdge ++ lit "class" ++ blanks1) .empty (fun _ _ _ => rfl)
    (isClosed_blanks1.append_left _) letsWordEnd_empty rfl

theorem names_rustFunction : rustFunction.Names fun x => IsCutOff x ∧ IsWord x.part :=
  names_longest (wordEdge ++ lit "fn" ++ blanks1) .empty (fun _ _ _ => rfl)
    (isClosed_blanks1.append_left _) letsWordEnd_empty rfl

theorem names_rustType : rustType.Names fun x => IsCutOff x ∧ IsWord x.part :=
  names_longest (wordEdge ++ firstOf (lit "struct") [lit "enum", lit "trait"] ++ blanks1)
    .empty (fun _ _ _ => rfl) (isClosed_blanks1.append_left _) letsWordEnd_empty rfl

/-! ## Qualified names -/

theorem takes_isQualified :
    (loop (most1 isWord ++ lit "::") ++ optional (lit "~") ++ most1 isWord).Takes IsQualified := by
  have hscope : (most1 isWord ++ lit "::").Takes IsScope :=
    (takes_most1 isWord).append (takes_lit "::") fun first second hfirst hsecond =>
      ⟨first, hfirst, hsecond ▸ rfl⟩
  have htilde : (optional (lit "~")).Takes fun taken => taken = [] ∨ taken = ['~'] :=
    ((takes_lit "~").mono fun _ => .inr).optional (.inl rfl)
  intro text c d taken hway
  cases hway with
  | seq hbefore hword =>
    cases hbefore with
    | seq hloop hopt =>
      obtain ⟨scopes, rfl, hscopes⟩ := hscope.loop hloop
      exact ⟨scopes, _, _, hscopes, htilde hopt, takes_most1 isWord hword, rfl⟩

theorem IsQualified.ne_nil (h : IsQualified cs) : cs ≠ [] := by
  obtain ⟨scopes, tilde, word, -, -, hword, rfl⟩ := h
  exact List.append_ne_nil_of_right_ne_nil _ hword.1

theorem takes_endsApart_loop (hp : IsClosed p) : (loop p).Takes EndsApart := by
  refine (Takes.loop hp).mono fun taken htaken => ?_
  obtain ⟨rounds, rfl, hall⟩ := htaken
  induction rounds with
  | nil => exact fun _ h => by cases h
  | cons first rounds ih =>
    rw [List.forall_mem_cons] at hall
    exact (ih hall.2).append fun _ => hall.1.2

theorem names_cFunction :
    cFunction.Names fun x => IsCutOff x ∧ IsQualified x.part ∧ IsCalled x := by
  have hgap : ∀ ch, isGap ch = true → isWord ch = false :=
    fun ch => isWord_of_among (s := " \t") (by decide)
  have hround : IsClosed (most1 (fun c => isWord c || among ":<>,*&~" c) ++ most1 isGap) :=
    IsClosed.append_left ((takes_most1 isGap).mono fun _ hall =>
      ⟨hall.1, endsApart_of_forall fun ch hch => hgap ch (hall.2 ch hch)⟩) _
  have hmark : (one (among "*&")).Takes fun taken => taken ≠ [] ∧ EndsApart taken := by
    refine (takes_one _).mono ?_
    rintro _ ⟨ch, rfl, hch⟩
    refine ⟨List.cons_ne_nil _ _, endsApart_of_forall fun x hx => ?_⟩
    rw [List.mem_singleton.1 hx]
    exact isWord_of_among (by decide) hch
  have hpre : IsClosed (lineStart ++ most isGap ++
      loop1 (most1 (fun c => isWord c || among ":<>,*&~" c) ++ most1 isGap) ++
      optional (one (among "*&"))) :=
    ((hround.append (takes_endsApart_loop hround)).append_left _).append
      (takes_endsApart_optional hmark)
  have hlink : (most isGap ++ lit "(").Takes fun taken => (taken ≠ [] ∧ StartsApart taken) ∧
      ∃ gap, taken = gap ++ ['('] ∧ ∀ ch ∈ gap, isGap ch = true := by
    refine (takes_most isGap).append (takes_lit "(") ?_
    rintro gap _ hall rfl
    refine ⟨⟨by simp, ?_⟩, gap, rfl, hall⟩
    exact (startsApart_of_forall fun ch hch => hgap ch (hall ch hch)).append fun _ => by decide
  refine Names.mono (names_between _ _ _
    (most (notAmong ";\x7b\x7d()") ++ lit ")" ++ most isGap ++
      optional (lit "const" ++ most isGap) ++ optional (lit "noexcept" ++ most isGap) ++
      optional (lit "override" ++ most isGap) ++ lit "\x7b")
    (fun _ _ _ => rfl) (fun _ _ _ _ _ _ hbefore _ => endsApart_of_isClosed hpre hbefore)
    takes_isQualified (fun _ h => h.ne_nil) hlink (by decide)) ?_
  rintro x ⟨hcut, hpart, taken, more, hafter, gap, rfl, hall⟩
  exact ⟨hcut, hpart, gap, more, by rw [hafter, List.append_assoc]; rfl, hall⟩

end Elements

namespace Extractor

open Elements Pattern

variable {name : String} {e : Extractor}

/-- The functions and classes of C and C++ apart, what a pattern names is a word. -/
theorem names_of_mem (h : (name, e) ∈ all) : for? (.known name) = some e ∧
    (if name = "C" ∨ name = "C++" then
      e.keywords = cKeywords ∧
        e.functions.Names fun x => IsCutOff x ∧ IsQualified x.part ∧ IsCalled x
    else e.keywords = [] ∧ e.functions.Names fun x => IsCutOff x ∧ IsWord x.part) ∧
    ∀ p ∈ e.classes, p.Names fun x => IsCutOff x ∧ IsWord x.part := by
  simp only [all, List.mem_cons, List.not_mem_nil, or_false, Prod.mk.injEq] at h
  rcases h with ⟨rfl, rfl⟩ | ⟨rfl, rfl⟩ | ⟨rfl, rfl⟩ | ⟨rfl, rfl⟩ | ⟨rfl, rfl⟩ | ⟨rfl, rfl⟩ |
    ⟨rfl, rfl⟩
  · exact ⟨rfl, ⟨rfl, names_pythonFunction⟩, fun _ hp => Option.some.inj hp ▸ names_pythonClass⟩
  · exact ⟨rfl, ⟨rfl, names_javaFunction⟩, fun _ hp => Option.some.inj hp ▸ names_javaClass⟩
  · exact ⟨rfl, ⟨rfl, names_cFunction⟩, fun _ hp => Option.some.inj hp ▸ names_cppClass⟩
  · exact ⟨rfl, ⟨rfl, names_cFunction⟩, fun _ hp => by cases hp⟩
  · exact ⟨rfl, ⟨rfl, names_goFunction⟩, fun _ hp => by cases hp⟩
  · exact ⟨rfl, ⟨rfl, names_javaScriptFunction⟩,
      fun _ hp => Option.some.inj hp ▸ names_javaScriptClass⟩
  · exact ⟨rfl, ⟨rfl, names_rustFunction⟩, fun _ hp => Option.some.inj hp ▸ names_rustType⟩

/-- **Names are whole words of the text, in its order.** -/
theorem names_whole (h : (name, e) ∈ all) (content : String) :
    extractElements? (.known name) content = some (e.extract content) ∧
    (if name = "C" ∨ name = "C++" then
      StandIn (fun x => IsCutOff x ∧ IsQualified x.part ∧ IsCalled x ∧
        String.ofList x.part ∉ cKeywords) content.toList (e.extract content).functions
    else
      StandIn (fun x => IsCutOff x ∧ IsWord x.part) content.toList
        (e.extract content).functions) ∧
    ∀ classes, (e.extract content).classes = some classes →
      StandIn (fun x => IsCutOff x ∧ IsWord x.part) content.toList classes := by
  obtain ⟨hfor, hfunctions, hclasses⟩ := names_of_mem h
  refine ⟨?_, ?_, fun classes hsome => ?_⟩
  · rw [extractElements?, hfor]
    rfl
  · have hextract : (e.extract content).functions =
        (e.functions.names content.toList.toArray).filter fun name => !e.keywords.contains name :=
      rfl
    rw [hextract]
    split
    · rename_i hname
      rw [if_pos hname] at hfunctions
      refine ((hfunctions.2.standIn _).filter _).mono ?_
      rintro x ⟨⟨hcut, hqualified, hcalled⟩, hkeyword⟩
      refine ⟨hcut, hqualified, hcalled, ?_⟩
      rw [← hfunctions.1]
      simpa using hkeyword
    · rename_i hname
      rw [if_neg hname] at hfunctions
      exact ((hfunctions.2.standIn _).filter _).mono fun x hx => hx.1
  · obtain ⟨p, hp, rfl⟩ := Option.map_eq_some_iff.1 hsome
    exact (hclasses p hp).standIn _

/-- The head of a destructor, and that of a block. -/
def destructorText : String := "int a::~b (c) \x7b\n\x7d else if (d) \x7b\n"

theorem names_whole_destructor :
    ∃ e, ("C++", e) ∈ all ∧ (e.extract destructorText).functions = ["a::~b"] ∧
      StandIn (fun x => IsCutOff x ∧ IsQualified x.part ∧ IsCalled x ∧
        String.ofList x.part ∉ cKeywords) destructorText.toList ["a::~b"] := by
  let e : Extractor :=
    { functions := cFunction, keywords := cKeywords, classes := some cppClass,
      comments := slashComment }
  have hmem : ("C++", e) ∈ all := by
    simp [all, e]
  have hnames : (e.extract destructorText).functions = ["a::~b"] := by
    decide +kernel
  obtain ⟨-, hfunctions, -⟩ := names_whole hmem destructorText
  rw [if_pos (by decide), hnames] at hfunctions
  exact ⟨e, hmem, hnames, hfunctions⟩

end Extractor

end SourceDocs
