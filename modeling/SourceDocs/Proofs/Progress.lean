import SourceDocs.Progress

set_option autoImplicit false

/-! # Numbers in groups of three

`groupThousands` reads the digits of a number backwards and decides by the place of each whether a
comma goes before it. Places count modulo three only (`groupFrom_add_three`), so the commas fall as
if the digits were taken off in threes (`groupThousands_cons`), and read forwards again they part
groups of digits (`areThousands_splitOn`). -/

namespace SourceDocs

variable {place : Nat} {digits : List Char}

/-! ## Places modulo three -/

/-- Digits, last digit first, that `place` others stand behind. -/
def groupFrom (place : Nat) (digits : List Char) : List Char :=
  (digits.zipIdx place).flatMap fun (digit, place) => placedDigit place digit

theorem groupFrom_cons (place : Nat) (digit : Char) (digits : List Char) :
    groupFrom place (digit :: digits) = placedDigit place digit ++ groupFrom (place + 1) digits := by
  rw [groupFrom, List.zipIdx_cons, List.flatMap_cons]
  rfl

/-- Behind the last digit, places that differ by three are alike. -/
theorem groupFrom_add_three (hplace : 0 < place) (digits : List Char) :
    groupFrom (place + 3) digits = groupFrom place digits := by
  induction digits generalizing place with
  | nil => rfl
  | cons digit rest ih =>
    have hdigit : placedDigit (place + 3) digit = placedDigit place digit := by
      rw [placedDigit, placedDigit, Nat.add_mod_right]
      simp [hplace]
    rw [groupFrom_cons, groupFrom_cons, hdigit, Nat.add_right_comm, ih (Nat.succ_pos place)]

/-- The first three digits are set apart, and the others grouped as if they were alone. -/
theorem groupThousands_cons (a b c d : Char) (rest : List Char) :
    groupThousands (a :: b :: c :: d :: rest) =
      a :: b :: c :: ',' :: groupThousands (d :: rest) := by
  have hrest : groupFrom 4 rest = groupFrom 1 rest := groupFrom_add_three Nat.one_pos rest
  show groupFrom 0 (a :: b :: c :: d :: rest) = a :: b :: c :: ',' :: groupFrom 0 (d :: rest)
  simp only [groupFrom_cons, Nat.zero_add, Nat.reduceAdd, hrest]
  rfl

theorem groupThousands_of_length_le (h : digits.length ≤ 3) : groupThousands digits = digits := by
  match digits, h with
  | [], _ => rfl
  | [_], _ => rfl
  | [_, _], _ => rfl
  | [_, _, _], _ => rfl

/-- What holds of up to three digits, and of more if it holds without the first three, holds of all
    digits. -/
theorem threes_induction {P : List Char → Prop} (short : ∀ digits, digits.length ≤ 3 → P digits)
    (long : ∀ a b c d rest, P (d :: rest) → P (a :: b :: c :: d :: rest)) : ∀ digits, P digits
  | a :: b :: c :: d :: rest => long a b c d rest (threes_induction short long (d :: rest))
  | [] => short [] (Nat.zero_le 3)
  | [a] => short [a] (by simp)
  | [a, b] => short [a, b] (by simp)
  | [a, b, c] => short [a, b, c] (by simp)

/-! ## Groups -/

/-- Groups of digits: one of up to three, then groups of three. -/
def AreThousands (groups : List (List Char)) : Prop :=
  ∃ first rest, groups = first :: rest ∧ 1 ≤ first.length ∧ first.length ≤ 3 ∧
    (∀ group ∈ rest, group.length = 3) ∧ ∀ group ∈ groups, ∀ c ∈ group, c.isDigit

theorem AreThousands.nil_notMem {groups : List (List Char)} (h : AreThousands groups) :
    [] ∉ groups := by
  obtain ⟨first, rest, rfl, hpos, -, hthree, -⟩ := h
  intro hnil
  rcases List.mem_cons.1 hnil with rfl | hnil
  · exact absurd hpos (by decide)
  · exact absurd (hthree [] hnil) (by decide)

/-- A separator without empty parts around it neither begins nor ends a text, and is not doubled. -/
theorem separator_between {sep : Char} {text : List Char} (h : [] ∉ text.splitOn sep) :
    text.head? ≠ some sep ∧ text.getLast? ≠ some sep ∧ ¬ [sep, sep] <:+: text := by
  refine ⟨?_, ?_, ?_⟩
  · intro hhead
    obtain ⟨rest, rfl⟩ := List.head?_eq_some_iff.1 hhead
    apply h
    rw [← List.nil_append (sep :: rest), List.splitOn_append_cons_self]
    exact List.mem_append_left _ List.mem_cons_self
  · intro hlast
    obtain ⟨before, rfl⟩ := List.getLast?_eq_some_iff.1 hlast
    apply h
    rw [List.splitOn_append_cons_self]
    exact List.mem_append_right _ List.mem_cons_self
  · rintro ⟨before, after, rfl⟩
    apply h
    rw [List.append_assoc, List.cons_append, List.splitOn_append_cons_self, List.cons_append,
      List.nil_append, ← List.nil_append (sep :: after), List.splitOn_append_cons_self]
    exact List.mem_append_right _ (List.mem_append_left _ List.mem_cons_self)

theorem comma_notMem_of_digits (h : ∀ c ∈ digits, c.isDigit) : ',' ∉ digits :=
  fun hmem => absurd (h ',' hmem) (by decide)

/-- Without the commas, the digits are as they were. -/
theorem filter_groupThousands (h : ',' ∉ digits) :
    (groupThousands digits).filter (· ≠ ',') = digits := by
  induction digits using threes_induction with
  | short digits hlength =>
    rw [groupThousands_of_length_le hlength, List.filter_eq_self]
    intro c hc
    simpa using ne_of_mem_of_not_mem hc h
  | long a b c d rest ih =>
    rw [List.mem_cons, List.mem_cons, List.mem_cons, not_or, not_or, not_or] at h
    obtain ⟨ha, hb, hc, hrest⟩ := h
    simpa [groupThousands_cons, Ne.symm ha, Ne.symm hb, Ne.symm hc] using ih hrest

/-- Read forwards, the commas part groups of digits. -/
theorem areThousands_splitOn (hne : digits ≠ []) (h : ∀ c ∈ digits, c.isDigit) :
    AreThousands ((groupThousands digits).reverse.splitOn ',') := by
  induction digits using threes_induction with
  | short digits hlength =>
    have hdigits : ∀ c ∈ digits.reverse, c.isDigit := fun c hc => h c (List.mem_reverse.1 hc)
    rw [groupThousands_of_length_le hlength,
      List.splitOn_eq_singleton (comma_notMem_of_digits hdigits)]
    refine ⟨digits.reverse, [], rfl, ?_, ?_, nofun, by simpa using h⟩
    · rw [List.length_reverse]
      exact List.length_pos_iff.2 hne
    · rwa [List.length_reverse]
  | long a b c d rest ih =>
    rw [List.forall_mem_cons, List.forall_mem_cons, List.forall_mem_cons] at h
    obtain ⟨ha, hb, hc, hrest⟩ := h
    have hlast : ∀ x ∈ [c, b, a], x.isDigit := by simp [ha, hb, hc]
    obtain ⟨first, groups, hgroups, hpos, hle, hthree, hdigits⟩ := ih (List.cons_ne_nil d rest) hrest
    have hreverse : (groupThousands (a :: b :: c :: d :: rest)).reverse =
        (groupThousands (d :: rest)).reverse ++ ',' :: [c, b, a] := by
      simp [groupThousands_cons]
    rw [hreverse, List.splitOn_append_cons_self,
      List.splitOn_eq_singleton (comma_notMem_of_digits hlast)]
    refine ⟨first, groups ++ [[c, b, a]], by rw [hgroups]; rfl, hpos, hle, ?_, ?_⟩
    · intro group hgroup
      rcases List.mem_append.1 hgroup with hgroup | hgroup
      · exact hthree group hgroup
      · rw [List.mem_singleton.1 hgroup]
        rfl
    · intro group hgroup
      rcases List.mem_append.1 hgroup with hgroup | hgroup
      · exact hdigits group hgroup
      · rw [List.mem_singleton.1 hgroup]
        exact hlast

/-! ## Numbers -/

theorem isDigit_of_mem_reverse_toString {n : Nat} {c : Char}
    (h : c ∈ (toString n).toList.reverse) : c.isDigit := by
  rw [List.mem_reverse, Nat.toString_eq_repr, Nat.toList_repr] at h
  exact Nat.isDigit_of_mem_toDigits (by decide) (by decide) h

theorem toList_formatNumber (n : Nat) :
    (formatNumber n).toList = (groupThousands (toString n).toList.reverse).reverse := by
  rw [formatNumber, String.toList_ofList]

theorem filter_formatNumber (n : Nat) :
    (formatNumber n).toList.filter (· ≠ ',') = (toString n).toList := by
  rw [toList_formatNumber, List.filter_reverse,
    filter_groupThousands (comma_notMem_of_digits fun _ => isDigit_of_mem_reverse_toString),
    List.reverse_reverse]

theorem areThousands_formatNumber (n : Nat) :
    AreThousands ((formatNumber n).toList.splitOn ',') := by
  rw [toList_formatNumber]
  refine areThousands_splitOn ?_ fun _ => isDigit_of_mem_reverse_toString
  rw [ne_eq, List.reverse_eq_nil_iff, Nat.toString_eq_repr, Nat.toList_repr]
  exact Nat.toDigits_ne_nil

/-- Numbers that print alike are equal, since their digits are. -/
theorem formatNumber_inj {m n : Nat} (h : formatNumber m = formatNumber n) : m = n := by
  have hdigits := filter_formatNumber m
  rw [h, filter_formatNumber, Nat.toString_eq_repr, Nat.toString_eq_repr, Nat.toList_repr,
    Nat.toList_repr] at hdigits
  rw [← Nat.ofDigitChars_ten_toDigits (n := m), ← hdigits, Nat.ofDigitChars_ten_toDigits]

/-- **A number is written in thousands**: without its commas it is the decimal number, and the
    commas part groups of digits, one of up to three and then of three each. So no comma begins or
    ends the text or follows another, and no two numbers are written alike. -/
theorem formatNumber_in_thousands (n : Nat) :
    (formatNumber n).toList.filter (· ≠ ',') = (toString n).toList ∧
      AreThousands ((formatNumber n).toList.splitOn ',') ∧
      ((formatNumber n).toList.head? ≠ some ',' ∧ (formatNumber n).toList.getLast? ≠ some ',' ∧
        ¬ [',', ','] <:+: (formatNumber n).toList) ∧
      ∀ m, formatNumber m = formatNumber n ↔ m = n :=
  ⟨filter_formatNumber n, areThousands_formatNumber n,
    separator_between (areThousands_formatNumber n).nil_notMem,
    fun _ => ⟨formatNumber_inj, congrArg formatNumber⟩⟩

example : [0, 999, 1000, 1234567].map formatNumber = ["0", "999", "1,000", "1,234,567"] := by
  decide +kernel

end SourceDocs
