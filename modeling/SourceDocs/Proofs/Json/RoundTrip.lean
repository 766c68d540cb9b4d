import SourceDocs.Json.Reader

set_option autoImplicit false

/-! # Written JSON is read back

Every value with a text of its own (`Json.Plain`) is what its text stands for, in either layout
(`parse?_text`). A string is read unit by unit, and the units of an escaped character stand for that
character. For the rest the reader takes the text of each part of a value and leaves what follows
(`Reads`), which goes from the parts to the whole; the fuel lasts because the text of a part is
shorter than that of the whole. -/

namespace SourceDocs.Json

/-- A value with a text of its own: natural numbers are the only numbers in it, and every string in
    it is one. -/
inductive Plain : Json → Prop
  | null : Plain null
  | bool (b : Bool) : Plain (bool b)
  | nat (n : Nat) : Plain (nat n)
  | string (s : String) : Plain (string s)
  | array {items : List Json} (h : ∀ v ∈ items, Plain v) : Plain (array items)
  | object {fields : List (String × Json)} (h : ∀ f ∈ fields, Plain f.2) : Plain (object fields)

/-! ## Blanks -/

theorem skipBlanks_cons {c : Char} (cs : List Char)
    (h : (c == ' ' || c == '\n' || c == '\r' || c == '\t') = false) :
    skipBlanks (c :: cs) = c :: cs := by
  rw [skipBlanks, List.dropWhile_cons, if_neg (by simp [h])]

/-- What sets parts of a value apart is passed over. -/
theorem skipBlanks_break (l : Layout) (depth : Nat) (cs : List Char) :
    skipBlanks (l.break depth ++ cs) = skipBlanks cs := by
  cases l with
  | compact => rfl
  | indented =>
    have hblanks : ∀ c ∈ '\n' :: List.replicate (2 * depth) ' ',
        (c == ' ' || c == '\n' || c == '\r' || c == '\t') = true := by
      intro c hc
      rcases List.mem_cons.1 hc with rfl | hc
      · rfl
      · rw [List.eq_of_mem_replicate hc]
        rfl
    exact List.dropWhile_append_of_pos hblanks

theorem readValue?_skipBlanks {cs cs' : List Char} (h : skipBlanks cs = skipBlanks cs')
    (fuel : Nat) : readValue? fuel cs = readValue? fuel cs' := by
  cases fuel with
  | zero => rw [readValue?, readValue?]
  | succ fuel => rw [readValue?, readValue?, h]

theorem readField?_skipBlanks {cs cs' : List Char} (h : skipBlanks cs = skipBlanks cs')
    (fuel : Nat) : readField? fuel cs = readField? fuel cs' := by
  cases fuel with
  | zero => rw [readField?, readField?]
  | succ fuel => rw [readField?, readField?, h]

/-! ## Strings -/

/-- The unit that a character is written as. -/
def unitOf (c : Char) : Unit :=
  if c.toNat < 32 ∧ c ∉ ['\n', '\r', '\t', '\x08', '\x0c'] then .word c.toNat else .char c

theorem hexWord?_hexDigit : ∀ n < 32, hexWord? '0' '0' (Text.hexDigit 'a' (n / 16))
    (Text.hexDigit 'a' (n % 16)) = some n := by
  decide

theorem readUnits_escapeChar (c : Char) (cs : List Char) :
    readUnits (escapeChar c ++ cs) = (readUnits cs).map fun r => (unitOf c :: r.1, r.2) := by
  rw [Option.map_eq_bind]
  by_cases hquote : c = '"'
  · subst hquote
    rfl
  by_cases hback : c = '\\'
  · subst hback
    rfl
  by_cases hnamed : c ∈ ['\n', '\r', '\t', '\x08', '\x0c']
  · have hunit : unitOf c = .char c := if_neg fun h => h.2 hnamed
    rw [hunit]
    simp only [List.mem_cons, List.not_mem_nil, or_false] at hnamed
    rcases hnamed with rfl | rfl | rfl | rfl | rfl <;> rfl
  simp only [List.mem_cons, List.not_mem_nil, or_false, not_or] at hnamed
  obtain ⟨hline, hreturn, htab, hbackspace, hfeed⟩ := hnamed
  by_cases hcontrol : c.toNat < 32
  · have hword := hexWord?_hexDigit c.toNat hcontrol
    have hunit : unitOf c = .word c.toNat :=
      if_pos ⟨hcontrol, by simp [hline, hreturn, htab, hbackspace, hfeed]⟩
    simp only [escapeChar, hquote, hback, hline, hreturn, htab, hbackspace, hfeed, hcontrol, if_true,
      if_false, List.cons_append, List.nil_append, hunit]
    rw [readUnits, hword]
    rfl
  · have hunit : unitOf c = .char c := if_neg fun h => hcontrol h.1
    simp only [escapeChar, hquote, hback, hline, hreturn, htab, hbackspace, hfeed, hcontrol, if_false,
      hunit, List.singleton_append]
    rw [readUnits]
    · rw [if_neg hcontrol]
      rfl
    · exact hquote
    · intro a b c' d rest hc
      exact fun _ => hback hc
    · intro d rest hc
      exact fun _ => hback hc

theorem readUnits_flatMap_escapeChar (cs rest : List Char) :
    readUnits (cs.flatMap escapeChar ++ '"' :: rest) = some (cs.map unitOf, rest) := by
  induction cs with
  | nil => rw [List.flatMap_nil, List.nil_append, readUnits]; rfl
  | cons c cs ih => rw [List.flatMap_cons, List.append_assoc, readUnits_escapeChar, ih]; rfl

theorem unitsText?_unitOf (c : Char) (us : List Unit) :
    unitsText? (unitOf c :: us) = (unitsText? us).map (c :: ·) := by
  by_cases h : c.toNat < 32 ∧ c ∉ ['\n', '\r', '\t', '\x08', '\x0c']
  · -- a number below 32 is no half of a surrogate pair
    have hunit : unitOf c = .word c.toNat := if_pos h
    have hhigh : isHighHalf c.toNat = false := by
      have := h.1
      simp [isHighHalf]
      omega
    have hlow : isLowHalf c.toNat = false := by
      have := h.1
      simp [isLowHalf]
      omega
    rw [hunit]
    cases us with
    | nil => simp [unitsText?, hhigh, hlow]
    | cons u us =>
      cases u with
      | char d => simp [unitsText?, hhigh, hlow]
      | word n => simp [unitsText?, hhigh, hlow]
  · have hunit : unitOf c = .char c := if_neg h
    rw [hunit, unitsText?]

theorem unitsText?_map_unitOf (cs : List Char) : unitsText? (cs.map unitOf) = some cs := by
  induction cs with
  | nil => rw [List.map_nil, unitsText?]
  | cons c cs ih => rw [List.map_cons, unitsText?_unitOf, ih, Option.map_some]

/-! ## Numbers -/

/-- A text does not go on with a number before it. -/
def EndsNumber (rest : List Char) : Prop :=
  ∀ c, rest.head? = some c → isDigit c = false ∧ c ≠ '.' ∧ c ≠ 'e' ∧ c ≠ 'E'

theorem isDigit_eq : isDigit = Char.isDigit := by
  funext c
  simp [isDigit, Char.isDigit]
  rfl

theorem digitsValue_eq (n : Nat) (ds : List Char) : digitsValue n ds = Nat.ofDigitChars 10 ds n := by
  rw [digitsValue, Nat.ofDigitChars_eq_foldl]
  exact congrArg (fun f => ds.foldl f n) (funext fun n => funext fun d => by rw [Nat.mul_comm]; rfl)

theorem digitChar_ne_zero : ∀ d < 10, 0 < d → Nat.digitChar d ≠ '0' := by
  decide

/-- Only zero is written with a zero at the front. -/
theorem toDigits_ne_zero_cons {n : Nat} (h : 0 < n) (ds : List Char) :
    Nat.toDigits 10 n ≠ '0' :: ds := by
  induction n using Nat.base_induction 10 (by decide) generalizing ds with
  | single m hm =>
    rw [Nat.toDigits_of_lt_base hm]
    intro heq
    exact digitChar_ne_zero m hm h (List.cons.inj heq).1
  | digit m k hk hm ih =>
    rw [← Nat.toDigits_append_toDigits (by decide) hm hk]
    intro heq
    rcases List.append_eq_cons_iff.1 heq with ⟨hnil, -⟩ | ⟨more, hmore, -⟩
    · exact Nat.toDigits_ne_nil hnil
    · exact ih hm more hmore

theorem readDigits?_toDigits (n : Nat) {rest : List Char} (h : EndsNumber rest) :
    readDigits? (Nat.toDigits 10 n ++ rest) = some (Nat.toDigits 10 n, rest) := by
  have hdigits : ∀ c ∈ Nat.toDigits 10 n, isDigit c = true := by
    intro c hc
    rw [isDigit_eq]
    exact Nat.isDigit_of_mem_toDigits (by decide) (by decide) hc
  have hrest : rest.takeWhile isDigit = [] ∧ rest.dropWhile isDigit = rest := by
    cases rest with
    | nil => exact ⟨rfl, rfl⟩
    | cons c rest => simp [h c rfl]
  obtain ⟨d, ds, hne⟩ := List.exists_cons_of_ne_nil (Nat.toDigits_ne_nil (n := n) (b := 10))
  rw [readDigits?, List.takeWhile_append_of_pos hdigits, List.dropWhile_append_of_pos hdigits,
    hrest.1, hrest.2, List.append_nil, hne]

theorem readWhole?_toDigits (n : Nat) {rest : List Char} (h : EndsNumber rest) :
    readWhole? (Nat.toDigits 10 n ++ rest) = some (Nat.toDigits 10 n, rest) := by
  by_cases hn : n = 0
  · subst hn
    rw [Nat.toDigits_zero]
    rfl
  · unfold readWhole?
    split
    · rename_i tail heq
      rcases List.append_eq_cons_iff.1 heq with ⟨hnil, -⟩ | ⟨more, hmore, -⟩
      · exact absurd hnil Nat.toDigits_ne_nil
      · exact absurd hmore (toDigits_ne_zero_cons (Nat.pos_of_ne_zero hn) more)
    · exact readDigits?_toDigits n h

theorem readMagnitude?_toDigits (n : Nat) {rest : List Char} (h : EndsNumber rest) :
    readMagnitude? false (Nat.toDigits 10 n ++ rest) = some (nat n, rest) := by
  have hvalue : digitsValue 0 (Nat.toDigits 10 n) = n := by
    rw [digitsValue_eq, Nat.ofDigitChars_ten_toDigits]
  unfold readMagnitude?
  rw [readWhole?_toDigits n h]
  cases rest with
  | nil => simp [readExponent?, hvalue]
  | cons c rest =>
    obtain ⟨-, hpoint, hlower, hupper⟩ := h c rfl
    simp [readExponent?, hvalue, hpoint, hlower, hupper]

/-- A natural number begins with a digit. -/
theorem exists_digit_toDigits (n : Nat) :
    ∃ d ds, Nat.toDigits 10 n = d :: ds ∧ isDigit d = true := by
  obtain ⟨d, ds, heq⟩ := List.exists_cons_of_ne_nil (Nat.toDigits_ne_nil (n := n) (b := 10))
  refine ⟨d, ds, heq, ?_⟩
  rw [isDigit_eq]
  exact Nat.isDigit_of_mem_toDigits (b := 10) (n := n) (by decide) (by decide) (by simp [heq])

/-! ## Values -/

/-- The text of a value is read as that value, wherever it stands. -/
def Reads (l : Layout) (v : Json) : Prop :=
  ∀ depth fuel rest, (write l depth v).length ≤ fuel → EndsNumber rest →
    readValue? fuel (write l depth v ++ rest) = some (v, rest)

theorem ne_of_isDigit {c d : Char} (hd : isDigit d = true) (hc : isDigit c = false) : d ≠ c := by
  rintro rfl
  rw [hd] at hc
  cases hc

theorem readValue?_digit {d : Char} (h : isDigit d = true) (fuel : Nat) (cs : List Char) :
    readValue? (fuel + 1) (d :: cs) = readMagnitude? false (d :: cs) := by
  have hblank : skipBlanks (d :: cs) = d :: cs := by
    refine skipBlanks_cons cs ?_
    simp [ne_of_isDigit h (c := ' ') rfl, ne_of_isDigit h (c := '\n') rfl,
      ne_of_isDigit h (c := '\r') rfl, ne_of_isDigit h (c := '\t') rfl]
  have hnumber : readNumber? (d :: cs) = readMagnitude? false (d :: cs) := by
    unfold readNumber?
    split
    · rename_i rest heq
      exact absurd (List.cons.inj heq).1 (ne_of_isDigit h rfl)
    · rfl
  rw [readValue?, hblank, ← hnumber]
  -- a digit is none of the characters that other values begin with
  split
  all_goals first
    | rfl
    | rename_i rest heq
      exact absurd (List.cons.inj heq).1 (ne_of_isDigit h rfl)

theorem reads_nat (l : Layout) (n : Nat) : Reads l (nat n) := by
  intro depth fuel rest hfuel hrest
  have htext : write l depth (nat n) = Nat.toDigits 10 n := by
    rw [write, Nat.toString_eq_repr, Nat.toList_repr]
  rw [htext] at hfuel ⊢
  obtain ⟨d, ds, heq, hd⟩ := exists_digit_toDigits n
  obtain ⟨fuel, rfl⟩ : ∃ k, fuel = k + 1 :=
    Nat.exists_eq_succ_of_ne_zero (by simp [heq] at hfuel; omega)
  have hread := readMagnitude?_toDigits n hrest
  rw [heq, List.cons_append] at hread ⊢
  rw [readValue?_digit hd, hread]

theorem reads_string (l : Layout) (s : String) : Reads l (string s) := by
  intro depth fuel rest hfuel hrest
  rw [write, writeText] at hfuel ⊢
  obtain ⟨fuel, rfl⟩ : ∃ k, fuel = k + 1 := Nat.exists_eq_succ_of_ne_zero (by simp at hfuel; omega)
  rw [List.cons_append, List.append_assoc, List.singleton_append, readValue?,
    skipBlanks_cons _ rfl]
  simp only [readUnits_flatMap_escapeChar, Option.bind_eq_bind, Option.bind_some,
    unitsText?_map_unitOf, String.ofList_toList]
  rfl

/-! ### Arrays -/

theorem endsNumber_cons {c : Char} (rest : List Char)
    (h : isDigit c = false ∧ c ≠ '.' ∧ c ≠ 'e' ∧ c ≠ 'E') : EndsNumber (c :: rest) := by
  intro d hd
  rw [List.head?_cons, Option.some.injEq] at hd
  exact hd ▸ h

theorem endsNumber_break {l : Layout} {depth : Nat} {rest : List Char} (h : EndsNumber rest) :
    EndsNumber (l.break depth ++ rest) := by
  cases l with
  | compact => exact h
  | indented => exact endsNumber_cons _ (by decide)

theorem endsNumber_writeItems (l : Layout) (depth : Nat) (vs : List Json) (rest : List Char) :
    EndsNumber (writeItems l depth vs ++ rest) := by
  cases vs with
  | nil =>
    rw [writeItems, List.append_assoc]
    exact endsNumber_break (endsNumber_cons _ (by decide))
  | cons v vs =>
    rw [writeItems]
    exact endsNumber_cons _ (by decide)

/-- No value begins with a closing bracket. -/
theorem readValue?_closing {cs rest : List Char} (h : skipBlanks cs = ']' :: rest) (fuel : Nat) :
    readValue? fuel cs = none := by
  cases fuel with
  | zero => rw [readValue?]
  | succ fuel =>
    rw [readValue?, h]
    rfl

theorem readItems?_writeItems {l : Layout} {vs : List Json} (hvs : ∀ v ∈ vs, Reads l v) :
    ∀ depth fuel rest, (writeItems l depth vs).length ≤ fuel →
      readItems? fuel (writeItems l depth vs ++ rest) = some (vs, rest) := by
  induction vs with
  | nil =>
    intro depth fuel rest hfuel
    rw [writeItems] at hfuel ⊢
    obtain ⟨fuel, rfl⟩ : ∃ k, fuel = k + 1 :=
      Nat.exists_eq_succ_of_ne_zero (by simp at hfuel; omega)
    rw [readItems?, List.append_assoc, skipBlanks_break, List.singleton_append,
      skipBlanks_cons _ rfl]
    rfl
  | cons v vs ih =>
    intro depth fuel rest hfuel
    rw [writeItems] at hfuel ⊢
    simp only [List.length_cons, List.length_append] at hfuel
    obtain ⟨fuel, rfl⟩ : ∃ k, fuel = k + 1 := Nat.exists_eq_succ_of_ne_zero (by omega)
    have hv : readValue? fuel (l.break (depth + 1) ++ (write l (depth + 1) v ++
        (writeItems l depth vs ++ rest))) = some (v, writeItems l depth vs ++ rest) := by
      rw [readValue?_skipBlanks (skipBlanks_break _ _ _)]
      exact hvs v List.mem_cons_self _ _ _ (by omega) (endsNumber_writeItems _ _ _ _)
    have hrest := ih (fun w hw => hvs w (List.mem_cons_of_mem _ hw)) depth fuel rest (by omega)
    rw [readItems?, List.cons_append, skipBlanks_cons _ rfl]
    simp only [List.append_assoc, hv, Option.bind_eq_bind, Option.bind_some, hrest]
    rfl

theorem reads_array {l : Layout} {items : List Json} (h : ∀ v ∈ items, Reads l v) :
    Reads l (array items) := by
  intro depth fuel rest hfuel hrest
  cases items with
  | nil =>
    rw [write] at hfuel ⊢
    obtain ⟨fuel, rfl⟩ : ∃ k, fuel = k + 1 :=
      Nat.exists_eq_succ_of_ne_zero (by simp at hfuel; omega)
    rw [readValue?, List.cons_append, skipBlanks_cons _ rfl]
    rfl
  | cons v vs =>
    rw [write] at hfuel ⊢
    simp only [List.length_cons, List.length_append] at hfuel
    obtain ⟨fuel, rfl⟩ : ∃ k, fuel = k + 1 := Nat.exists_eq_succ_of_ne_zero (by omega)
    have hv : readValue? fuel (l.break (depth + 1) ++ (write l (depth + 1) v ++
        (writeItems l depth vs ++ rest))) = some (v, writeItems l depth vs ++ rest) := by
      rw [readValue?_skipBlanks (skipBlanks_break _ _ _)]
      exact h v List.mem_cons_self _ _ _ (by omega) (endsNumber_writeItems _ _ _ _)
    have hvs := readItems?_writeItems (fun w hw => h w (List.mem_cons_of_mem _ hw)) depth fuel rest
      (by omega)
    rw [readValue?, List.cons_append, skipBlanks_cons _ rfl]
    simp only [List.append_assoc]
    split
    · rename_i tail heq
      rw [readValue?_closing heq] at hv
      cases hv
    · simp only [hv, Option.bind_eq_bind, Option.bind_some, hvs]
      rfl

/-! ### Objects -/

theorem endsNumber_writeFields (l : Layout) (depth : Nat) (fs : List (String × Json))
    (rest : List Char) : EndsNumber (writeFields l depth fs ++ rest) := by
  cases fs with
  | nil =>
    rw [writeFields, List.append_assoc]
    exact endsNumber_break (endsNumber_cons _ (by decide))
  | cons f fs =>
    rw [writeFields]
    exact endsNumber_cons _ (by decide)

/-- The text of one field. -/
def writeField (l : Layout) (depth : Nat) (name : String) (v : Json) : List Char :=
  writeText name ++ (l.colon ++ write l depth v)

theorem exists_colon (l : Layout) :
    ∃ blanks, l.colon = ':' :: blanks ∧ ∀ cs, skipBlanks (blanks ++ cs) = skipBlanks cs := by
  cases l with
  | compact => exact ⟨[], rfl, fun _ => rfl⟩
  | indented => exact ⟨[' '], rfl, fun _ => rfl⟩

theorem readField?_writeField {l : Layout} {v : Json} (h : Reads l v) (name : String)
    (depth fuel : Nat) {rest : List Char} (hfuel : (writeField l depth name v).length ≤ fuel)
    (hrest : EndsNumber rest) :
    readField? fuel (writeField l depth name v ++ rest) = some ((some name, v), rest) := by
  obtain ⟨blanks, hcolon, hblanks⟩ := exists_colon l
  rw [writeField, writeText, hcolon] at hfuel ⊢
  simp only [List.length_cons, List.length_append] at hfuel
  obtain ⟨fuel, rfl⟩ : ∃ k, fuel = k + 1 := Nat.exists_eq_succ_of_ne_zero (by omega)
  have hv : readValue? fuel (blanks ++ (write l depth v ++ rest)) = some (v, rest) := by
    rw [readValue?_skipBlanks (hblanks _)]
    exact h _ _ _ (by omega) hrest
  have htext : '"' :: (name.toList.flatMap escapeChar ++ ['"']) ++ (':' :: blanks ++ write l depth v) ++
      rest = '"' :: (name.toList.flatMap escapeChar ++
        '"' :: (':' :: (blanks ++ (write l depth v ++ rest)))) := by
    simp
  rw [htext, readField?, skipBlanks_cons _ rfl]
  simp only [readUnits_flatMap_escapeChar, Option.bind_eq_bind, Option.bind_some]
  rw [skipBlanks_cons _ rfl]
  simp only [hv, Option.bind_some, unitsText?_map_unitOf, Option.map_some, String.ofList_toList]
  rfl

theorem readFields?_writeFields {l : Layout} {fs : List (String × Json)}
    (hfs : ∀ f ∈ fs, Reads l f.2) :
    ∀ depth fuel rest, (writeFields l depth fs).length ≤ fuel →
      readFields? fuel (writeFields l depth fs ++ rest) =
        some (fs.map fun f => (some f.1, f.2), rest) := by
  induction fs with
  | nil =>
    intro depth fuel rest hfuel
    rw [writeFields] at hfuel ⊢
    obtain ⟨fuel, rfl⟩ : ∃ k, fuel = k + 1 :=
      Nat.exists_eq_succ_of_ne_zero (by simp at hfuel; omega)
    rw [readFields?, List.append_assoc, skipBlanks_break, List.singleton_append,
      skipBlanks_cons _ rfl]
    rfl
  | cons f fs ih =>
    intro depth fuel rest hfuel
    obtain ⟨name, v⟩ := f
    have htext : writeFields l depth ((name, v) :: fs) = ',' :: (l.break (depth + 1) ++
        (writeField l (depth + 1) name v ++ writeFields l depth fs)) := by
      simp only [writeFields, writeField, List.append_assoc]
    rw [htext] at hfuel ⊢
    simp only [List.length_cons, List.length_append] at hfuel
    obtain ⟨fuel, rfl⟩ : ∃ k, fuel = k + 1 := Nat.exists_eq_succ_of_ne_zero (by omega)
    have hf : readField? fuel (l.break (depth + 1) ++ (writeField l (depth + 1) name v ++
        (writeFields l depth fs ++ rest))) =
        some ((some name, v), writeFields l depth fs ++ rest) := by
      rw [readField?_skipBlanks (skipBlanks_break _ _ _)]
      exact readField?_writeField (show Reads l v from hfs (name, v) List.mem_cons_self) _ _ _
        (by omega) (endsNumber_writeFields _ _ _ _)
    have hrest := ih (fun g hg => hfs g (List.mem_cons_of_mem _ hg)) depth fuel rest (by omega)
    rw [readFields?, List.cons_append, skipBlanks_cons _ rfl]
    simp only [List.append_assoc, hf, Option.bind_eq_bind, Option.bind_some, hrest]
    rfl

/-- Fields that all have a name make up an object. -/
theorem ofFields_map (fs : List (String × Json)) :
    ofFields (fs.map fun f => (some f.1, f.2)) = object fs := by
  have hnames : (fs.map fun f => (some f.1, f.2)).mapM
      (fun f : Option String × Json => f.1.map fun name => (name, f.2)) = some fs := by
    induction fs with
    | nil => rfl
    | cons f fs ih => rw [List.map_cons, List.mapM_cons, ih]; rfl
  rw [ofFields, hnames]

theorem reads_object {l : Layout} {fields : List (String × Json)}
    (h : ∀ f ∈ fields, Reads l f.2) : Reads l (object fields) := by
  intro depth fuel rest hfuel hrest
  cases fields with
  | nil =>
    rw [write] at hfuel ⊢
    obtain ⟨fuel, rfl⟩ : ∃ k, fuel = k + 1 :=
      Nat.exists_eq_succ_of_ne_zero (by simp at hfuel; omega)
    rw [readValue?, List.cons_append, skipBlanks_cons _ rfl]
    rfl
  | cons f fs =>
    obtain ⟨name, v⟩ := f
    have htext : write l depth (object ((name, v) :: fs)) = '{' :: (l.break (depth + 1) ++
        (writeField l (depth + 1) name v ++ writeFields l depth fs)) := by
      simp only [write, writeField, List.append_assoc]
    rw [htext] at hfuel ⊢
    simp only [List.length_cons, List.length_append] at hfuel
    obtain ⟨fuel, rfl⟩ : ∃ k, fuel = k + 1 := Nat.exists_eq_succ_of_ne_zero (by omega)
    have hf : readField? fuel (l.break (depth + 1) ++ (writeField l (depth + 1) name v ++
        (writeFields l depth fs ++ rest))) =
        some ((some name, v), writeFields l depth fs ++ rest) := by
      rw [readField?_skipBlanks (skipBlanks_break _ _ _)]
      exact readField?_writeField (show Reads l v from h (name, v) List.mem_cons_self) _ _ _ (by omega)
        (endsNumber_writeFields _ _ _ _)
    have hfs := readFields?_writeFields (fun g hg => h g (List.mem_cons_of_mem _ hg)) depth fuel
      rest (by omega)
    -- the name of the first field begins with a quote
    have hquote : skipBlanks (l.break (depth + 1) ++ (writeField l (depth + 1) name v ++
        (writeFields l depth fs ++ rest))) =
        writeField l (depth + 1) name v ++ (writeFields l depth fs ++ rest) := by
      rw [skipBlanks_break]
      exact skipBlanks_cons _ rfl
    rw [readValue?, List.cons_append, skipBlanks_cons _ rfl]
    simp only [List.append_assoc]
    rw [hquote]
    split
    · rename_i tail heq
      cases heq
    · simp only [hf, Option.bind_eq_bind, Option.bind_some, hfs]
      have hobject := ofFields_map ((name, v) :: fs)
      rw [List.map_cons] at hobject
      rw [hobject]
      rfl

/-! ## Whole texts -/

theorem reads_of_plain (l : Layout) {v : Json} (h : Plain v) : Reads l v := by
  induction h with
  | null =>
    intro depth fuel rest hfuel hrest
    rw [write] at hfuel ⊢
    obtain ⟨fuel, rfl⟩ : ∃ k, fuel = k + 1 :=
      Nat.exists_eq_succ_of_ne_zero (by simp at hfuel; omega)
    rfl
  | bool b =>
    intro depth fuel rest hfuel hrest
    obtain ⟨fuel, rfl⟩ : ∃ k, fuel = k + 1 :=
      Nat.exists_eq_succ_of_ne_zero (by cases b <;> simp [write] at hfuel <;> omega)
    cases b with
    | true => rfl
    | false => rfl
  | nat n => exact reads_nat l n
  | string s => exact reads_string l s
  | array _ ih => exact reads_array ih
  | object _ ih => exact reads_object ih

/-- **A value is what its text stands for**, in either layout. -/
theorem parse?_text (l : Layout) {v : Json} (h : Plain v) :
    parse? (String.ofList (v.write l 0)) = some v := by
  have hread := reads_of_plain l h 0 ((write l 0 v).length + 1) [] (by omega) (by simp [EndsNumber])
  rw [List.append_nil] at hread
  rw [parse?, String.toList_ofList, parseChars?, hread]
  rfl

theorem parse?_indentedText {v : Json} (h : Plain v) : parse? v.indentedText = some v :=
  parse?_text .indented h

end SourceDocs.Json
