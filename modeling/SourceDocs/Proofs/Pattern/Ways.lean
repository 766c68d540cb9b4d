import SourceDocs.Proofs.Pattern

set_option autoImplicit false

/-! # Patterns: the ways in which they match

Whatever a pattern prefers, what a run of it comes to is one of its ways (`Pattern.Way`), and one
that the continuation accepts (`exists_way_of_run`). A way passes over a stretch of the text and
tells what stands there, so what a pattern takes is told part by part (`Pattern.Takes`). Matches
follow one another without overlap, and so do their names (`Names.standIn`). -/

namespace SourceDocs

namespace Pattern

variable {text : Array Char} {p q : Pattern} {c d e r : Cursor} {k : Cursor → Option Cursor}
  {accept : Char → Bool} {pos n : Nat} {ch : Char} {taken first second more : List Char}

/-! ## Ways -/

/-- The ways in which a pattern matches: from a cursor, over some characters, to another cursor. -/
inductive Way (text : Array Char) : Pattern → Cursor → List Char → Cursor → Prop
  | empty {c : Cursor} : Way text empty c [] c
  | one {accept : Char → Bool} {c : Cursor} {ch : Char} {more : List Char}
      (hrest : rest text c.pos = ch :: more) (hch : accept ch = true) :
      Way text (one accept) c [ch] (c.at (c.pos + 1))
  | seq {p q : Pattern} {c d e : Cursor} {first second : List Char}
      (hp : Way text p c first d) (hq : Way text q d second e) :
      Way text (seq p q) c (first ++ second) e
  | former {p q : Pattern} {c d : Cursor} {taken : List Char} (hp : Way text p c taken d) :
      Way text (orElse p q) c taken d
  | latter {p q : Pattern} {c d : Cursor} {taken : List Char} (hq : Way text q c taken d) :
      Way text (orElse p q) c taken d
  | most {accept : Char → Bool} {c : Cursor} {taken : List Char}
      (hpre : taken <+: rest text c.pos) (hall : ∀ ch ∈ taken, accept ch = true) :
      Way text (most accept) c taken (c.at (c.pos + taken.length))
  | fewest {accept : Char → Bool} {c : Cursor} {taken : List Char}
      (hpre : taken <+: rest text c.pos) (hall : ∀ ch ∈ taken, accept ch = true) :
      Way text (fewest accept) c taken (c.at (c.pos + taken.length))
  | done {p : Pattern} {c : Cursor} : Way text (loop p) c [] c
  | round {p : Pattern} {c d e : Cursor} {first others : List Char}
      (hp : Way text p c first d) (hloop : Way text (loop p) d others e) :
      Way text (loop p) c (first ++ others) e
  | named {p : Pattern} {c d : Cursor} {taken : List Char} (hp : Way text p c taken d) :
      Way text (named p) c taken { d with name? := some ⟨c.pos, d.pos⟩ }
  | again {c : Cursor} {s : Span} (hname : c.name? = some s)
      (hsame : s.slice text = (Span.mk c.pos (c.pos + (s.stop - s.start))).slice text) :
      Way text again c ((rest text c.pos).take (s.stop - s.start))
        (c.at (c.pos + (s.stop - s.start)))
  | wordEdge {c : Cursor} (hedge : wordBefore text c.pos ≠ wordAt text c.pos) :
      Way text wordEdge c [] c
  | lineStart {c : Cursor} (hline : c.pos = 0 ∨ text[c.pos - 1]? = some '\n') :
      Way text lineStart c [] c
  | textStart {c : Cursor} (hpos : c.pos = 0) : Way text textStart c [] c
  | textEnd {c : Cursor} (hpos : c.pos = text.size) : Way text textEnd c [] c

/-- A way goes forward. -/
theorem Way.le (h : Way text p c taken d) : c.pos ≤ d.pos := by
  induction h with
  | seq _ _ ihp ihq => exact ihp.trans ihq
  | round _ _ ihp ihloop => exact ihp.trans ihloop
  | former _ ih => exact ih
  | latter _ ih => exact ih
  | named _ ih => exact ih
  | one _ _ => exact Nat.le_succ _
  | most _ _ => exact Nat.le_add_right _ _
  | fewest _ _ => exact Nat.le_add_right _ _
  | again _ _ => exact Nat.le_add_right _ _
  | _ => exact Nat.le_refl _

/-- What is left within something that a text goes on with. -/
theorem rest_add_of_isPrefix (h : taken <+: rest text pos) (hn : n ≤ taken.length) :
    rest text (pos + n) = taken.drop n ++ rest text (pos + taken.length) := by
  obtain ⟨after, hafter⟩ := h
  rw [rest_add, rest_add, ← hafter, List.drop_left, List.drop_append_of_le_length hn]

/-- What a way passes over is what the text goes on with. -/
theorem Way.rest_eq (h : Way text p c taken d) : rest text c.pos = taken ++ rest text d.pos := by
  induction h with
  | seq _ _ ihp ihq => rw [ihp, ihq, List.append_assoc]
  | round _ _ ihp ihloop => rw [ihp, ihloop, List.append_assoc]
  | former _ ih => exact ih
  | latter _ ih => exact ih
  | named _ ih => exact ih
  | one hrest _ =>
    rw [hrest, Cursor.at, rest_succ_of_cons hrest]
    rfl
  | most hpre _ => exact rest_add_of_isPrefix hpre (Nat.zero_le _)
  | fewest hpre _ => exact rest_add_of_isPrefix hpre (Nat.zero_le _)
  | again _ _ =>
    rw [Cursor.at, rest_add, List.take_append_drop]
  | _ => rfl

theorem Way.lt (h : Way text p c taken d) (hne : taken ≠ []) : c.pos < d.pos := by
  refine Nat.lt_of_le_of_ne h.le fun hpos => hne ?_
  have hrest := h.rest_eq
  rw [hpos] at hrest
  exact List.self_eq_append_left.1 hrest

/-- What a text has before a position. -/
def passed (text : Array Char) (pos : Nat) : List Char := text.toList.take pos

theorem passed_append_rest (text : Array Char) (pos : Nat) :
    passed text pos ++ rest text pos = text.toList :=
  List.take_append_drop pos text.toList

theorem Way.passed_eq (h : Way text p c taken d) :
    passed text d.pos = passed text c.pos ++ taken := by
  have htext := passed_append_rest text d.pos
  rw [← passed_append_rest text c.pos, h.rest_eq, ← List.append_assoc] at htext
  exact List.append_cancel_right htext

theorem Way.slice_eq (h : Way text p c taken d) : (Span.mk c.pos d.pos).slice text = taken := by
  have hrest := h.rest_eq
  have hlength := congrArg List.length hrest
  have hle := h.le
  rw [List.length_append, length_rest, length_rest] at hlength
  obtain ⟨n, hn⟩ := Nat.exists_eq_add_of_le hle
  rw [hn, slice_eq_take, hrest]
  by_cases hend : d.pos ≤ text.size
  · have htaken : n = taken.length := by omega
    rw [htaken, List.take_left]
  · -- a way that leaves the text has taken all that was left of it
    have hnil : rest text d.pos = [] := by
      rw [← List.length_eq_zero_iff, length_rest]
      omega
    rw [hnil, List.append_nil, List.take_of_length_le (by omega)]

/-! ## Runs -/

theorem exists_of_longestFirst (h : longestFirst k c n = some r) :
    ∃ m ≤ n, k (c.at (c.pos + m)) = some r ∧
      ∀ m' ≤ n, m < m' → k (c.at (c.pos + m')) = none := by
  induction n with
  | zero =>
    rw [longestFirst] at h
    refine ⟨0, Nat.le_refl _, ?_, fun m' hle hlt => by omega⟩
    split at h
    · rename_i hk
      rw [hk, h]
    · cases h
  | succ n ih =>
    rw [longestFirst] at h
    split at h
    · rename_i hk
      exact ⟨n + 1, Nat.le_refl _, by rw [hk, h], fun m' hle hlt => by omega⟩
    · rename_i hk
      obtain ⟨m, hm, hr, hlonger⟩ := ih h
      refine ⟨m, Nat.le_succ_of_le hm, hr, fun m' hle hlt => ?_⟩
      rcases Nat.lt_or_eq_of_le hle with hlt' | rfl
      · exact hlonger m' (Nat.le_of_lt_succ hlt') hlt
      · exact hk

/-- Where the continuation accepts the longest way if it accepts any, the longest way is taken. -/
theorem of_run_most (h : run text (most accept) c k = some r)
    (hk : ∀ m ≤ ((rest text c.pos).takeWhile accept).length, (k (c.at (c.pos + m))).isSome →
      (k (c.at (c.pos + ((rest text c.pos).takeWhile accept).length))).isSome) :
    k (c.at (c.pos + ((rest text c.pos).takeWhile accept).length)) = some r := by
  rw [run, reach_sub] at h
  obtain ⟨m, hm, hr, hlonger⟩ := exists_of_longestFirst h
  rcases Nat.lt_or_eq_of_le hm with hlt | rfl
  · have hlongest := hk m hm (by rw [hr]; rfl)
    rw [hlonger _ (Nat.le_refl _) hlt] at hlongest
    cases hlongest
  · exact hr

theorem exists_of_shortestFirst (h : shortestFirst k c n = some r) :
    ∃ m ≤ n, k (c.at (c.pos + m)) = some r := by
  induction n generalizing c with
  | zero =>
    rw [shortestFirst] at h
    refine ⟨0, Nat.le_refl _, ?_⟩
    split at h
    · rename_i hk
      exact hk.trans h
    · cases h
  | succ n ih =>
    rw [shortestFirst] at h
    split at h
    · rename_i hk
      exact ⟨0, Nat.zero_le _, hk.trans h⟩
    · obtain ⟨m, hm, hr⟩ := ih h
      refine ⟨m + 1, Nat.succ_le_succ hm, ?_⟩
      rw [Nat.add_comm m 1, ← Nat.add_assoc]
      exact hr

/-- Characters of a class that a text goes on with, no more than there are. -/
theorem exists_taken (hn : n ≤ reach text accept (text.size - c.pos) c.pos - c.pos) :
    ∃ taken, taken.length = n ∧ taken <+: rest text c.pos ∧ ∀ ch ∈ taken, accept ch = true := by
  rw [reach_sub] at hn
  refine ⟨((rest text c.pos).takeWhile accept).take n, List.length_take_of_le hn, ?_, ?_⟩
  · exact (List.take_prefix _ _).trans (List.takeWhile_prefix _)
  · exact fun ch hch => List.mem_takeWhile_imp (List.mem_of_mem_take hch)

theorem exists_way_of_roundsFirst
    (ih : ∀ {c : Cursor} {k : Cursor → Option Cursor} {r : Cursor}, run text p c k = some r →
      ∃ taken d, Way text p c taken d ∧ k d = some r)
    (h : roundsFirst (run text p) k n c = some r) :
    ∃ taken d, Way text (loop p) c taken d ∧ k d = some r := by
  induction n generalizing c with
  | zero => exact ⟨[], c, .done, h⟩
  | succ n ihn =>
    rw [roundsFirst] at h
    split at h
    · rename_i hbody
      cases h
      obtain ⟨first, d, hfirst, hd⟩ := ih hbody
      split at hd
      · obtain ⟨others, e, hothers, he⟩ := ihn hd
        exact ⟨first ++ others, e, .round hfirst hothers, he⟩
      · cases hd
    · exact ⟨[], c, .done, h⟩

/-- What a run comes to is a way that the continuation accepts. -/
theorem exists_way_of_run (h : run text p c k = some r) :
    ∃ taken d, Way text p c taken d ∧ k d = some r := by
  induction p generalizing c k r with
  | empty => exact ⟨[], c, .empty, h⟩
  | one accept =>
    rw [run] at h
    cases hrest : rest text c.pos with
    | nil =>
      rw [getElem?_of_rest_nil hrest] at h
      cases h
    | cons ch more =>
      simp only [getElem?_of_rest_cons hrest] at h
      split at h
      · rename_i hch
        exact ⟨[ch], _, .one hrest hch, h⟩
      · cases h
  | seq p q ihp ihq =>
    obtain ⟨first, d, hfirst, hd⟩ := ihp h
    obtain ⟨second, e, hsecond, he⟩ := ihq hd
    exact ⟨first ++ second, e, .seq hfirst hsecond, he⟩
  | orElse p q ihp ihq =>
    rw [run_orElse, Option.or_eq_some_iff] at h
    rcases h with h | ⟨-, h⟩
    · obtain ⟨taken, d, hway, hd⟩ := ihp h
      exact ⟨taken, d, .former hway, hd⟩
    · obtain ⟨taken, d, hway, hd⟩ := ihq h
      exact ⟨taken, d, .latter hway, hd⟩
  | most accept =>
    obtain ⟨m, hm, hr, -⟩ := exists_of_longestFirst h
    obtain ⟨taken, rfl, hpre, hall⟩ := exists_taken hm
    exact ⟨taken, _, .most hpre hall, hr⟩
  | fewest accept =>
    obtain ⟨m, hm, hr⟩ := exists_of_shortestFirst h
    obtain ⟨taken, rfl, hpre, hall⟩ := exists_taken hm
    exact ⟨taken, _, .fewest hpre hall, hr⟩
  | loop p ih => exact exists_way_of_roundsFirst ih h
  | named p ih =>
    obtain ⟨taken, d, hway, hd⟩ := ih h
    exact ⟨taken, _, .named hway, hd⟩
  | again =>
    rw [run] at h
    split at h
    · cases h
    · rename_i s hname
      dsimp only at h
      split at h
      · rename_i hsame
        exact ⟨_, _, .again hname (eq_of_beq hsame), h⟩
      · cases h
  | wordEdge =>
    rw [run] at h
    split at h
    · rename_i hedge
      exact ⟨[], c, .wordEdge (by simpa using hedge), h⟩
    · cases h
  | lineStart =>
    rw [run] at h
    split at h
    · rename_i hline
      exact ⟨[], c, .lineStart (by simpa using hline), h⟩
    · cases h
  | textStart =>
    rw [run] at h
    split at h
    · rename_i hpos
      exact ⟨[], c, .textStart (eq_of_beq hpos), h⟩
    · cases h
  | textEnd =>
    rw [run] at h
    split at h
    · rename_i hpos
      exact ⟨[], c, .textEnd (eq_of_beq hpos), h⟩
    · cases h

/-! ## What patterns take -/

/-- A property of all that a pattern takes. -/
def Takes (p : Pattern) (P : List Char → Prop) : Prop :=
  ∀ ⦃text : Array Char⦄ ⦃c d : Cursor⦄ ⦃taken : List Char⦄, Way text p c taken d → P taken

variable {P Q R : List Char → Prop}

theorem Takes.mono (h : p.Takes P) (hPQ : ∀ taken, P taken → Q taken) : p.Takes Q :=
  fun _ _ _ _ hway => hPQ _ (h hway)

theorem Takes.append (hp : p.Takes P) (hq : q.Takes Q)
    (h : ∀ first second, P first → Q second → R (first ++ second)) : (p ++ q).Takes R := by
  intro text c d taken hway
  cases hway with
  | seq hfirst hsecond => exact h _ _ (hp hfirst) (hq hsecond)

theorem Takes.orElse (hp : p.Takes P) (hq : q.Takes P) : (orElse p q).Takes P := by
  intro text c d taken hway
  cases hway with
  | former hway => exact hp hway
  | latter hway => exact hq hway

theorem Takes.optional (hp : p.Takes P) (hnil : P []) : (optional p).Takes P := by
  refine hp.orElse fun _ _ _ _ hway => ?_
  cases hway
  exact hnil

theorem takes_one (accept : Char → Bool) : (one accept).Takes fun taken =>
    ∃ ch, taken = [ch] ∧ accept ch = true := by
  intro text c d taken hway
  cases hway with
  | one _ hch => exact ⟨_, rfl, hch⟩

theorem takes_most (accept : Char → Bool) :
    (most accept).Takes fun taken => ∀ ch ∈ taken, accept ch = true := by
  intro text c d taken hway
  cases hway with
  | most _ hall => exact hall

theorem takes_most1 (accept : Char → Bool) :
    (most1 accept).Takes fun taken => taken ≠ [] ∧ ∀ ch ∈ taken, accept ch = true := by
  refine (takes_one accept).append (takes_most accept) ?_
  rintro _ second ⟨ch, rfl, hch⟩ hall
  refine ⟨List.cons_ne_nil _ _, fun x hx => ?_⟩
  rcases List.mem_cons.1 hx with rfl | hx
  · exact hch
  · exact hall x hx

theorem takes_lit (s : String) : (lit s).Takes fun taken => taken = s.toList := by
  rw [lit]
  generalize s.toList = cs
  induction cs with
  | nil =>
    intro text c d taken hway
    cases hway
    rfl
  | cons ch cs ih =>
    refine (takes_one _).append ih ?_
    rintro _ _ ⟨x, rfl, hx⟩ rfl
    rw [eq_of_beq hx]
    rfl

/-- A loop takes what its rounds take. -/
theorem Takes.loop (hp : p.Takes P) :
    (loop p).Takes fun taken => ∃ rounds : List (List Char),
      taken = rounds.flatten ∧ ∀ x ∈ rounds, P x := by
  intro text c d taken hway
  generalize hloop : Pattern.loop p = whole at hway
  induction hway with
  | done => exact ⟨[], rfl, fun _ hx => absurd hx List.not_mem_nil⟩
  | round hfirst _ _ ih =>
    cases hloop
    obtain ⟨rounds, rfl, hall⟩ := ih rfl
    exact ⟨_ :: rounds, rfl, List.forall_mem_cons.2 ⟨hp hfirst, hall⟩⟩
  | _ => cases hloop

/-! ## Names -/

/-- Whether a pattern names nothing. -/
def isNameless : Pattern → Bool
  | named _ => false
  | seq p q => p.isNameless && q.isNameless
  | orElse p q => p.isNameless && q.isNameless
  | loop p => p.isNameless
  | _ => true

theorem Way.name?_eq (h : Way text p c taken d) (hp : p.isNameless = true) :
    d.name? = c.name? := by
  induction h with
  | seq _ _ ihp ihq =>
    rw [isNameless, Bool.and_eq_true] at hp
    rw [ihq hp.2, ihp hp.1]
  | round _ _ ihp ihloop => rw [ihloop hp, ihp hp]
  | former _ ih =>
    rw [isNameless, Bool.and_eq_true] at hp
    exact ih hp.1
  | latter _ ih =>
    rw [isNameless, Bool.and_eq_true] at hp
    exact ih hp.2
  | named _ _ => cases hp
  | _ => rfl

/-- A part of a text, with what precedes it and what follows it. -/
structure Place where
  before : List Char
  part : List Char
  after : List Char

namespace Place

/-- The text of which a place has a part. -/
def whole (x : Place) : List Char := x.before ++ x.part ++ x.after

/-- One place starts before another one and ends before it. -/
def Precedes (x y : Place) : Prop :=
  x.before.length < y.before.length ∧ x.before.length + x.part.length ≤ y.before.length

/-- The place of a span. -/
def ofSpan (text : Array Char) (s : Span) : Place :=
  { before := passed text s.start, part := s.slice text, after := rest text s.stop }

variable {s s' : Span}

theorem whole_ofSpan (h : s.start ≤ s.stop) : (ofSpan text s).whole = text.toList := by
  obtain ⟨n, hn⟩ := Nat.exists_eq_add_of_le h
  have hslice : s.slice text = (rest text s.start).take n := by
    rw [← slice_eq_take, ← hn]
  rw [whole, ofSpan, hslice, hn, rest_add, List.append_assoc, List.take_append_drop,
    passed_append_rest]

theorem precedes_ofSpan (hs : s.start < s.stop) (hdisjoint : s.stop ≤ s'.start)
    (hsize : s'.start ≤ text.size) : (ofSpan text s).Precedes (ofSpan text s') := by
  simp [Precedes, ofSpan, passed, Span.slice]
  omega

end Place

/-- Every match of a pattern has a name, which lies in it, is not empty and stands at a place with a
property. -/
def Names (p : Pattern) (P : Place → Prop) : Prop :=
  ∀ ⦃text : Array Char⦄ ⦃start : Nat⦄ ⦃m : Match⦄, start ≤ text.size →
    matchAt? text p start = some m → ∃ s, m.name? = some s ∧ m.span.start ≤ s.start ∧
      s.start < s.stop ∧ s.stop ≤ m.span.stop ∧ s.stop ≤ text.size ∧ P (.ofSpan text s)

/-! ## Matches in order -/

theorem start_of_matchAt? {m : Match} (h : matchAt? text p pos = some m) : m.span.start = pos := by
  rw [matchAt?_eq_map] at h
  obtain ⟨c, -, rfl⟩ := Option.map_eq_some_iff.1 h
  rfl

theorem of_findFrom?_eq_some {m : Match} (h : findFrom? text p n pos = some m) :
    pos ≤ m.span.start ∧ m.span.start ≤ pos + n ∧ matchAt? text p m.span.start = some m := by
  induction n generalizing pos with
  | zero =>
    rw [findFrom?] at h
    split at h
    · rename_i hmatch
      cases h
      rw [start_of_matchAt? hmatch]
      exact ⟨Nat.le_refl _, Nat.le_refl _, hmatch⟩
    · cases h
  | succ n ih =>
    rw [findFrom?] at h
    split at h
    · rename_i hmatch
      cases h
      rw [start_of_matchAt? hmatch]
      exact ⟨Nat.le_refl _, Nat.le_add_right _ _, hmatch⟩
    · obtain ⟨hlow, hhigh, hmatch⟩ := ih h
      exact ⟨by omega, by omega, hmatch⟩

theorem of_mem_findAllFrom {m : Match} (h : m ∈ findAllFrom text p n pos) :
    pos ≤ m.span.start ∧ m.span.start ≤ text.size ∧ matchAt? text p m.span.start = some m := by
  induction n generalizing pos with
  | zero => cases h
  | succ n ih =>
    rw [findAllFrom] at h
    split at h
    · cases h
    split at h
    · cases h
    · rename_i hpos _ found hfound
      obtain ⟨hlow, hhigh, hmatch⟩ := of_findFrom?_eq_some hfound
      rcases List.mem_cons.1 h with rfl | h
      · exact ⟨hlow, by omega, hmatch⟩
      · obtain ⟨hlater, hmore⟩ := ih h
        exact ⟨by omega, hmore⟩

/-- Each match starts no earlier than where the one before it ended. -/
theorem pairwise_findAllFrom (text : Array Char) (p : Pattern) (n pos : Nat) :
    (findAllFrom text p n pos).Pairwise fun m m' => m.span.stop ≤ m'.span.start := by
  induction n generalizing pos with
  | zero => exact .nil
  | succ n ih =>
    rw [findAllFrom]
    split
    · exact .nil
    split
    · exact .nil
    · refine List.pairwise_cons.2 ⟨fun m' hm' => ?_, ih _⟩
      exact (Nat.le_max_left _ _).trans (of_mem_findAllFrom hm').1

/-- Names stand one after the other in a text, each at a place with a property. -/
def StandIn (P : Place → Prop) (cs : List Char) (names : List String) : Prop :=
  ∃ places : List Place, names = places.map (fun x => String.ofList x.part) ∧
    places.Pairwise Place.Precedes ∧ ∀ x ∈ places, x.whole = cs ∧ P x

theorem StandIn.filter {P : Place → Prop} {cs : List Char} {names : List String}
    (h : StandIn P cs names) (keep : String → Bool) :
    StandIn (fun x => P x ∧ keep (String.ofList x.part) = true) cs (names.filter keep) := by
  obtain ⟨places, rfl, hordered, hall⟩ := h
  refine ⟨places.filter fun x => keep (String.ofList x.part), ?_, hordered.filter _, ?_⟩
  · rw [List.filter_map]
    rfl
  · intro x hx
    obtain ⟨hmem, hkeep⟩ := List.mem_filter.1 hx
    obtain ⟨hwhole, hP⟩ := hall x hmem
    exact ⟨hwhole, hP, hkeep⟩

theorem StandIn.mono {P Q : Place → Prop} {cs : List Char} {names : List String}
    (h : StandIn P cs names) (hPQ : ∀ x, P x → Q x) : StandIn Q cs names := by
  obtain ⟨places, hnames, hordered, hall⟩ := h
  exact ⟨places, hnames, hordered, fun x hx => (hall x hx).imp_right (hPQ x)⟩

/-- **The names of all matches stand one after the other in the text.** -/
theorem Names.standIn {P : Place → Prop} (h : p.Names P) (text : Array Char) :
    StandIn P text.toList (p.names text) := by
  have hmatch : ∀ m ∈ findAll p text, ∀ s, m.name? = some s → m.span.start ≤ s.start ∧
      s.start < s.stop ∧ s.stop ≤ m.span.stop ∧ s.stop ≤ text.size ∧ P (.ofSpan text s) := by
    intro m hm s hs
    obtain ⟨-, hle, hmatch⟩ := of_mem_findAllFrom hm
    obtain ⟨s', hs', hname⟩ := h hle hmatch
    rw [hs] at hs'
    cases hs'
    exact hname
  refine ⟨((findAll p text).filterMap Match.name?).map (.ofSpan text), ?_, ?_, ?_⟩
  · rw [names, List.map_map, List.map_filterMap]
    rfl
  · rw [List.pairwise_map, List.pairwise_filterMap]
    refine (pairwise_findAllFrom text p _ 0).imp_of_mem ?_
    intro m m' hm hm' hdisjoint s hs s' hs'
    obtain ⟨-, hlt, hhigh, -, -⟩ := hmatch m hm s hs
    obtain ⟨hlow', hlt', -, hsize', -⟩ := hmatch m' hm' s' hs'
    exact Place.precedes_ofSpan hlt (by omega) (by omega)
  · intro x hx
    obtain ⟨s, hs, rfl⟩ := List.mem_map.1 hx
    obtain ⟨m, hm, hname⟩ := List.mem_filterMap.1 hs
    obtain ⟨-, hlt, -, -, hplace⟩ := hmatch m hm s hname
    exact ⟨Place.whole_ofSpan hlt.le, hplace⟩

theorem Names.mono {P Q : Place → Prop} (h : p.Names P) (hPQ : ∀ x, P x → Q x) : p.Names Q := by
  intro text start m hstart hmatch
  obtain ⟨s, hname, hlow, hlt, hhigh, hsize, hP⟩ := h hstart hmatch
  exact ⟨s, hname, hlow, hlt, hhigh, hsize, hPQ _ hP⟩

/-- Either of two patterns names what stands at a place with a property. -/
theorem Names.orElse {P : Place → Prop} (hp : p.Names P) (hq : q.Names P) :
    (orElse p q).Names P := by
  intro text start m hstart hmatch
  rw [matchAt?_eq_map, run_orElse, Option.map_or, ← matchAt?_eq_map, ← matchAt?_eq_map,
    Option.or_eq_some_iff] at hmatch
  rcases hmatch with hmatch | ⟨-, hmatch⟩
  · exact hp hstart hmatch
  · exact hq hstart hmatch

end Pattern

end SourceDocs
