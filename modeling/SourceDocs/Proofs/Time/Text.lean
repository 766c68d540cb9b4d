import Mathlib.Algebra.GroupWithZero.Nat
import SourceDocs.Time.Reader

set_option autoImplicit false

/-! # The written form of an instant is read back

A reader of numbers takes the digits of a number and leaves what follows (`number?_append`), which
in the written form is never a digit. Padding does not change what digits stand for, the fraction is
written with as many digits as it needs, and the offset is none, so the fields that are read are
those that are written (`parse?_toString`). They are those of the instant itself, unless it is in
the leap second of a second that is not the last of its minute (`readBack_eq_self_iff`); no text is
read as such an instant (`isRegular_of_parse?`). A stamp has no separators, but all its parts after
the year have two digits, so it still tells them apart (`timeStamp_eq_iff`). -/

namespace SourceDocs.Instant

variable {ds rest : List Char} {least most n width : Nat}

/-! ## Digits -/

/-- A text does not go on with a digit. -/
def EndsDigits (rest : List Char) : Prop :=
  rest.takeWhile isDigit = []

theorem endsDigits_cons {c : Char} (h : isDigit c = false) (rest : List Char) :
    EndsDigits (c :: rest) := by
  rw [EndsDigits, List.takeWhile_cons, h]
  rfl

theorem EndsDigits.take (h : EndsDigits rest) (k : Nat) : EndsDigits (rest.take k) := by
  cases rest with
  | nil => rwa [List.take_nil]
  | cons c rest =>
    cases k with
    | zero => rfl
    | succ k =>
      rw [EndsDigits, List.takeWhile_cons] at h
      cases hc : isDigit c with
      | true =>
        rw [hc] at h
        cases h
      | false => exact endsDigits_cons hc _

theorem EndsDigits.dropWhile (h : EndsDigits rest) : rest.dropWhile isDigit = rest := by
  have hsplit := List.takeWhile_append_dropWhile (p := isDigit) (l := rest)
  rwa [h, List.nil_append] at hsplit

theorem isDigit_eq : isDigit = Char.isDigit := by
  funext c
  simp [isDigit, Char.isDigit]
  rfl

theorem isDigit_of_mem_toDigits {c : Char} (h : c ∈ Nat.toDigits 10 n) : isDigit c = true := by
  rw [isDigit_eq]
  exact Nat.isDigit_of_mem_toDigits (by decide) (by decide) h

theorem padded_eq (width n : Nat) : padded width n =
    List.replicate (width - (Nat.toDigits 10 n).length) '0' ++ Nat.toDigits 10 n := by
  rw [padded, Text.padNumber, Text.padLeft, Nat.toString_eq_repr, Nat.toList_repr]

theorem isDigit_of_mem_padded (width n : Nat) {c : Char} (h : c ∈ padded width n) :
    isDigit c = true := by
  rw [padded_eq] at h
  rcases List.mem_append.1 h with h | h
  · rw [List.eq_of_mem_replicate h]
    rfl
  · exact isDigit_of_mem_toDigits h

theorem length_padded (hwidth : 0 < width) (hn : n < 10 ^ width) :
    (padded width n).length = width := by
  have hlength : (Nat.toDigits 10 n).length ≤ width := by
    rw [Nat.length_toDigits_le_iff (by decide) hwidth]
    exact hn
  rw [padded_eq, List.length_append, List.length_replicate]
  omega

theorem length_padded_pos (width n : Nat) : 0 < (padded width n).length := by
  have hpos := List.length_pos_iff.2 (Nat.toDigits_ne_nil (n := n) (b := 10))
  rw [padded_eq, List.length_append]
  omega

theorem valueOf_eq (ds : List Char) : valueOf ds = Nat.ofDigitChars 10 ds 0 := by
  rw [valueOf, Nat.ofDigitChars_eq_foldl]
  exact congrArg (fun f => ds.foldl f 0) (funext fun n => funext fun d => by rw [Nat.mul_comm]; rfl)

/-- Padding does not change what digits stand for. -/
theorem valueOf_padded (width n : Nat) : valueOf (padded width n) = n := by
  rw [padded_eq]
  induction width - (Nat.toDigits 10 n).length with
  | zero => rw [List.replicate_zero, List.nil_append, valueOf_eq, Nat.ofDigitChars_ten_toDigits]
  | succ zeros ih =>
    rw [List.replicate_succ, List.cons_append]
    exact ih

/-- A number is read up to where its digits end. -/
theorem number?_append (hds : ∀ c ∈ ds, isDigit c = true) (hleast : least ≤ ds.length)
    (hmost : ds.length ≤ most) (hrest : EndsDigits rest) :
    number? least most (ds ++ rest) = some (valueOf ds, rest) := by
  have htake : ((ds ++ rest).take most).takeWhile isDigit = ds := by
    rw [List.take_append, List.take_of_length_le hmost, List.takeWhile_append_of_pos hds,
      hrest.take, List.append_nil]
  rw [number?, htake, if_pos hleast, List.drop_left]

/-! ## Parts with blanks before them -/

theorem trimStart_cons {c : Char} (h : Text.isBlank c = false) (cs : List Char) :
    Text.trimStart (c :: cs) = c :: cs := by
  rw [Text.trimStart, List.dropWhile_cons, if_neg (by simp [h])]

theorem isBlank_of_isDigit {c : Char} (h : isDigit c = true) : Text.isBlank c = false := by
  have hnat : 48 ≤ c.toNat ∧ c.toNat ≤ 57 := by
    simpa [isDigit, Char.le_def, UInt32.le_iff_toNat_le] using h
  simp [Text.isBlank]
  omega

theorem exists_padded (width n : Nat) :
    ∃ d ds, padded width n = d :: ds ∧ isDigit d = true := by
  obtain ⟨d, ds, heq⟩ := List.exists_cons_of_length_pos (length_padded_pos width n)
  refine ⟨d, ds, heq, isDigit_of_mem_padded width n ?_⟩
  rw [heq]
  exact List.mem_cons_self

theorem trimStart_padded (width n : Nat) (rest : List Char) :
    Text.trimStart (padded width n ++ rest) = padded width n ++ rest := by
  obtain ⟨d, ds, heq, hd⟩ := exists_padded width n
  rw [heq, List.cons_append, trimStart_cons (isBlank_of_isDigit hd)]

theorem relaxedNumber?_padded (hn : n < 100) (hrest : EndsDigits rest) :
    relaxedNumber? (padded 2 n ++ rest) = some (n, rest) := by
  have hlength := length_padded (show 0 < 2 by decide) hn
  rw [relaxedNumber?, trimStart_padded,
    number?_append (fun _ => isDigit_of_mem_padded _ _) (by omega) (by omega) hrest, valueOf_padded]

theorem afterBlanks?_cons {c : Char} (h : Text.isBlank c = false) (rest : List Char) :
    afterBlanks? c (c :: rest) = some rest := by
  rw [afterBlanks?, trimStart_cons h, after?, if_pos rfl]

theorem afterDate?_cons (rest : List Char) : afterDate? ('T' :: rest) = some rest :=
  rfl

/-! ## Years -/

theorem relaxedYear?_yearText (year : Int) (hrest : EndsDigits rest) :
    relaxedYear? (yearText year ++ rest) = some (year, rest) := by
  -- with a sign, any number of digits is read
  have hsigned : number? 1 (padded 4 year.natAbs ++ rest).length (padded 4 year.natAbs ++ rest) =
      some (year.natAbs, rest) := by
    have hpos := length_padded_pos 4 year.natAbs
    rw [number?_append (fun _ => isDigit_of_mem_padded _ _) hpos (by simp) hrest, valueOf_padded]
  unfold yearText
  split
  · rename_i hneg
    have hyear : -(year.natAbs : Int) = year := by omega
    rw [List.cons_append, relaxedYear?, trimStart_cons (by decide)]
    simp only [hsigned, Option.map_some, hyear]
  · split
    · rename_i hneg hbig
      have hyear : (year.natAbs : Int) = year := by omega
      rw [List.cons_append, relaxedYear?, trimStart_cons (by decide)]
      simp only [hsigned, Option.map_some, hyear]
    · rename_i hneg hbig
      have hyear : (year.natAbs : Int) = year := by omega
      have hlength : (padded 4 year.natAbs).length = 4 := length_padded (by decide) (by omega)
      have hnumber : number? 1 4 (padded 4 year.natAbs ++ rest) = some (year.natAbs, rest) := by
        rw [number?_append (fun _ => isDigit_of_mem_padded _ _) (by omega) (by omega) hrest,
          valueOf_padded]
      obtain ⟨d, ds, heq, hd⟩ := exists_padded 4 year.natAbs
      rw [relaxedYear?, trimStart_padded]
      rw [heq, List.cons_append] at hnumber ⊢
      split
      · rename_i tail htail
        rw [(List.cons.inj htail).1] at hd
        cases hd
      · rename_i tail htail
        rw [(List.cons.inj htail).1] at hd
        cases hd
      · simp only [hnumber, Option.map_some, hyear]

/-! ## Fractions -/

theorem fraction?_append (hds : ∀ c ∈ ds, isDigit c = true) (hpos : 0 < ds.length)
    (hlength : ds.length ≤ 9) (hrest : EndsDigits rest) :
    fraction? ('.' :: (ds ++ rest)) = some (valueOf ds * 10 ^ (9 - ds.length), rest) := by
  have htake : ((ds ++ rest).take 9).takeWhile isDigit = ds := by
    rw [List.take_append, List.take_of_length_le hlength, List.takeWhile_append_of_pos hds,
      hrest.take, List.append_nil]
  have hempty : ds.isEmpty = false := by
    rw [List.isEmpty_eq_false_iff]
    exact List.length_pos_iff.1 hpos
  simp only [fraction?, htake, hempty, List.dropWhile_append_of_pos hds, hrest.dropWhile]
  rfl

theorem fraction?_fractionText (hn : n < 1000000000) :
    fraction? (fractionText n ++ ['Z']) = some (n, ['Z']) := by
  have hdigits : ∀ width k, 0 < width → width ≤ 9 → k < 10 ^ width →
      fraction? ('.' :: (padded width k ++ ['Z'])) = some (k * 10 ^ (9 - width), ['Z']) := by
    intro width k hpos hle hk
    have hlength := length_padded hpos hk
    rw [fraction?_append (fun _ => isDigit_of_mem_padded _ _) (by omega) (by omega)
      (endsDigits_cons rfl []), valueOf_padded, hlength]
  unfold fractionText
  split
  · rename_i hzero
    rw [hzero]
    rfl
  split
  · rename_i hmillis
    rw [List.cons_append, hdigits 3 _ (by decide) (by decide) (by omega)]
    have hvalue : n / 1000000 * 10 ^ (9 - 3) = n := by omega
    rw [hvalue]
  split
  · rename_i hmicros
    rw [List.cons_append, hdigits 6 _ (by decide) (by decide) (by omega)]
    have hvalue : n / 1000 * 10 ^ (9 - 6) = n := by omega
    rw [hvalue]
  · rw [List.cons_append, hdigits 9 _ (by decide) (by decide) hn]
    simp

/-! ## Leap seconds -/

variable {t t' : Instant}

/-- What the written form of an instant is read as: the leap second of a second that is not the last
of its minute as the second after that, and any other instant as itself. -/
def readBack (t : Instant) : Instant :=
  if h : 1000000000 ≤ t.nanosecond ∧ t.second ≠ 59 then
    { t with
      second := t.second + 1
      nanosecond := t.nanosecond - 1000000000
      second_lt := by have := t.second_lt; omega
      nanosecond_lt := by have := t.nanosecond_lt; omega }
  else t

/-- **Exactly the regular instants are read back as themselves.** -/
theorem readBack_eq_self_iff : t.readBack = t ↔ t.IsRegular := by
  unfold readBack IsRegular
  split
  · rename_i hleap
    refine iff_of_false (fun heq => ?_) (fun hregular => hleap.2 (hregular hleap.1))
    exact absurd (congrArg Instant.second heq) (Nat.succ_ne_self t.second)
  · rename_i hleap
    exact iff_of_true rfl fun hle => not_not.1 fun hne => hleap ⟨hle, hne⟩

theorem isRegular_readBack (t : Instant) : t.readBack.IsRegular := by
  have hnano := t.nanosecond_lt
  unfold readBack
  split
  · exact fun hle => absurd hle (by show ¬1000000000 ≤ t.nanosecond - 1000000000; omega)
  · rename_i hleap
    exact fun hle => not_not.1 fun hne => hleap ⟨hle, hne⟩

theorem writtenSecond_le (t : Instant) : t.writtenSecond ≤ 60 := by
  have hsecond := t.second_lt
  have hnano := t.nanosecond_lt
  unfold writtenSecond
  omega

theorem writtenNanosecond_lt (t : Instant) : t.writtenNanosecond < 1000000000 :=
  Nat.mod_lt _ (by decide)

theorem of?_eq_some {date : Date} {hour minute second nanosecond : Nat} :
    of? date hour minute second nanosecond = some t ↔ t.date = date ∧ t.hour = hour ∧
      t.minute = minute ∧ t.second = second ∧ t.nanosecond = nanosecond := by
  unfold of?
  constructor
  · intro h
    split at h
    · cases h
      exact ⟨rfl, rfl, rfl, rfl, rfl⟩
    · cases h
  · rintro ⟨rfl, rfl, rfl, rfl, rfl⟩
    exact dif_pos ⟨t.hour_lt, t.minute_lt, t.second_lt, t.nanosecond_lt⟩

theorem ofWritten?_written (t : Instant) :
    ofWritten? t.date t.hour t.minute t.writtenSecond t.writtenNanosecond = some t.readBack := by
  have hsecond := t.second_lt
  have hnano := t.nanosecond_lt
  rw [ofWritten?, if_pos t.writtenNanosecond_lt, writtenSecond, writtenNanosecond]
  unfold readBack
  by_cases hleap : 1000000000 ≤ t.nanosecond
  · by_cases hlast : t.second = 59
    · rw [if_pos (by omega), dif_neg (by simp [hlast]), of?_eq_some]
      exact ⟨rfl, rfl, rfl, hlast, by omega⟩
    · rw [if_neg (by omega), dif_pos ⟨hleap, hlast⟩, of?_eq_some]
      exact ⟨rfl, rfl, rfl, by show t.second + 1 = _; omega, by
        show t.nanosecond - 1000000000 = _; omega⟩
  · rw [if_neg (by omega), dif_neg (by simp [hleap]), of?_eq_some]
    exact ⟨rfl, rfl, rfl, by omega, by omega⟩

theorem written_readBack (t : Instant) : t.readBack.writtenSecond = t.writtenSecond ∧
    t.readBack.writtenNanosecond = t.writtenNanosecond := by
  have hnano := t.nanosecond_lt
  unfold readBack
  split
  · rename_i hleap
    constructor
    · show t.second + 1 + (t.nanosecond - 1000000000) / 1000000000 = _
      rw [writtenSecond]
      omega
    · show (t.nanosecond - 1000000000) % 1000000000 = _
      rw [writtenNanosecond]
      omega
  · exact ⟨rfl, rfl⟩

theorem isRegular_of_ofWritten? {date : Date} {hour minute second nanosecond : Nat}
    (h : ofWritten? date hour minute second nanosecond = some t) : t.IsRegular := by
  unfold ofWritten? at h
  split at h
  · rename_i hlt
    split at h
    · exact fun _ => (of?_eq_some.1 h).2.2.2.1
    · have hnano := (of?_eq_some.1 h).2.2.2.2
      exact fun hle => absurd hle (by omega)
  · cases h

/-! ## Instants -/

theorem ofLocal?_zero (t : Instant) : ofLocal? t 0 = some t := by
  have hhour := t.hour_lt
  have hminute := t.minute_lt
  have hlow : ¬((t.hour * 60 + t.minute : Nat) : Int) - 0 < 0 := by omega
  have hhigh : ¬(1440 : Int) ≤ ((t.hour * 60 + t.minute : Nat) : Int) - 0 := by omega
  simp only [ofLocal?, if_neg hlow, if_neg hhigh]
  exact of?_eq_some.2 ⟨rfl, by omega, by omega, rfl, rfl⟩

/-- Clocks that are some minutes ahead show the same seconds. -/
theorem isRegular_of_ofLocal? {minutes : Int} (h : ofLocal? t minutes = some t')
    (hregular : t.IsRegular) : t'.IsRegular := by
  have hfields : ∀ {date? : Option Date} {hour minute : Nat},
      (date?.bind fun date => of? date hour minute t.second t.nanosecond) = some t' →
        t'.IsRegular := by
    intro date? hour minute hbind hle
    obtain ⟨date, -, hdate⟩ := Option.bind_eq_some_iff.1 hbind
    obtain ⟨-, -, -, hsecond, hnano⟩ := of?_eq_some.1 hdate
    rw [hsecond]
    exact hregular (hnano ▸ hle)
  simp only [ofLocal?, Option.bind_eq_bind] at h
  split at h
  · exact hfields h
  · split at h
    · exact hfields h
    · exact hfields h

theorem assemble?_written (t : Instant) : assemble? t.date.year t.date.month t.date.day t.hour
    t.minute t.writtenSecond t.writtenNanosecond 0 = some t.readBack := by
  have hdate : Date.of? t.date.year t.date.month t.date.day = some t.date := dif_pos t.date.valid
  simp only [assemble?, hdate, ofWritten?_written, Option.bind_eq_bind, Option.bind_some,
    ofLocal?_zero]

theorem isRegular_of_assemble? {year : Int} {month day hour minute second nanosecond : Nat}
    {offset : Int} (h : assemble? year month day hour minute second nanosecond offset = some t) :
    t.IsRegular := by
  obtain ⟨date, -, h⟩ := Option.bind_eq_some_iff.1 h
  obtain ⟨shown, hshown, h⟩ := Option.bind_eq_some_iff.1 h
  exact isRegular_of_ofLocal? h (isRegular_of_ofWritten? hshown)

theorem month_day_lt (d : Date) : d.month < 100 ∧ d.day < 100 := by
  have hvalid := d.valid
  simp only [isDate, Bool.and_eq_true, decide_eq_true_eq] at hvalid
  have hdays : daysInMonth d.year d.month ≤ 31 := by
    unfold daysInMonth
    split
    · split <;> omega
    · split <;> omega
  omega

/-- The parts of the written form, each followed by what ends its digits. -/
theorem toList_toString (t : Instant) : (toString t).toList = yearText t.date.year ++ '-' ::
    (padded 2 t.date.month ++ '-' :: (padded 2 t.date.day ++ 'T' :: (padded 2 t.hour ++ ':' ::
      (padded 2 t.minute ++ ':' :: (padded 2 t.writtenSecond ++
        (fractionText t.writtenNanosecond ++ ['Z'])))))) := by
  show (String.ofList t.text).toList = _
  rw [String.toList_ofList, text]
  simp

theorem endsDigits_fractionText (n : Nat) : EndsDigits (fractionText n ++ ['Z']) := by
  unfold fractionText
  split
  · rfl
  split
  · rfl
  split
  · rfl
  · rfl

/-- The written form of an instant is read as that instant, as far as it is regular. -/
theorem parse?_toString (t : Instant) : parse? (toString t) = some t.readBack := by
  obtain ⟨hmonth, hday⟩ := month_day_lt t.date
  have hhour := t.hour_lt
  have hminute := t.minute_lt
  have hsecond := t.writtenSecond_le
  have hfraction := endsDigits_fractionText t.writtenNanosecond
  have hoffset : relaxedOffset? (Text.trimStart ['Z']) = some (0, []) := by
    decide
  have hdash : ∀ rest, EndsDigits ('-' :: rest) := endsDigits_cons rfl
  have hcolon : ∀ rest, EndsDigits (':' :: rest) := endsDigits_cons rfl
  have htime : ∀ rest, EndsDigits ('T' :: rest) := endsDigits_cons rfl
  unfold parse?
  rw [toList_toString]
  simp only [Option.bind_eq_bind, Option.bind_some, relaxedYear?_yearText _ (hdash _),
    afterBlanks?_cons (c := '-') rfl, relaxedNumber?_padded hmonth (hdash _),
    relaxedNumber?_padded hday (htime _), afterDate?_cons, afterBlanks?_cons (c := ':') rfl,
    relaxedNumber?_padded (Nat.lt_trans hhour (by decide)) (hcolon _),
    relaxedNumber?_padded (Nat.lt_trans hminute (by decide)) (hcolon _),
    relaxedNumber?_padded (Nat.lt_of_le_of_lt hsecond (by decide)) hfraction,
    fraction?_fractionText t.writtenNanosecond_lt, hoffset, assemble?_written]
  rfl

/-- Half a second into the leap second of the thirtieth second. -/
example : (of? .epoch 0 0 30 1500000000).map (fun t => (toString t, parse? (toString t))) =
    some ("1970-01-01T00:00:31.500Z", of? .epoch 0 0 31 500000000) := by decide +kernel

/-- What is read back has the same written form. -/
theorem toString_readBack (t : Instant) : toString t.readBack = toString t := by
  obtain ⟨hsecond, hnano⟩ := written_readBack t
  have hfields : t.readBack.date = t.date ∧ t.readBack.hour = t.hour ∧
      t.readBack.minute = t.minute := by
    unfold readBack
    split
    · exact ⟨rfl, rfl, rfl⟩
    · exact ⟨rfl, rfl, rfl⟩
  obtain ⟨hdate, hhour, hminute⟩ := hfields
  rw [← String.toList_inj, toList_toString, toList_toString, hsecond, hnano, hdate, hhour, hminute]

/-- Whatever is read is regular. -/
theorem isRegular_of_parse? {s : String} (h : parse? s = some t) : t.IsRegular := by
  simp only [parse?, Option.bind_eq_bind, Option.bind_eq_some_iff] at h
  obtain ⟨_, -, _, -, _, -, _, -, _, -, _, -, _, -, _, -, _, -, _, -, _, -, _, -, _, -, h⟩ := h
  split at h
  · exact isRegular_of_assemble? h
  · cases h

/-! ## In full width -/

theorem number?_padded (hwidth : 0 < width) (hn : n < 10 ^ width) (hrest : EndsDigits rest) :
    number? width width (padded width n ++ rest) = some (n, rest) := by
  have hlength := length_padded hwidth hn
  rw [number?_append (fun _ => isDigit_of_mem_padded _ _) (by omega) (by omega) hrest,
    valueOf_padded]

theorem after?_cons (c : Char) (rest : List Char) : after? c (c :: rest) = some rest := by
  rw [after?, if_pos rfl]

theorem yearText_eq_padded {year : Int} (hlow : 0 ≤ year) (hhigh : year ≤ 9999) :
    yearText year = padded 4 year.toNat := by
  have hnat : year.natAbs = year.toNat := by omega
  rw [yearText, if_neg (by omega), if_neg (by omega), hnat]

/-- The written form of an instant of a year in four digits is read strictly as that instant, as far
as it is regular. -/
theorem parseStrict?_toString (t : Instant) (hlow : 0 ≤ t.date.year) (hhigh : t.date.year ≤ 9999) :
    parseStrict? (toString t) = some t.readBack := by
  obtain ⟨hmonth, hday⟩ := month_day_lt t.date
  have hhour := t.hour_lt
  have hminute := t.minute_lt
  have hsecond := t.writtenSecond_le
  have hyear : ((t.date.year.toNat : Nat) : Int) = t.date.year := by omega
  have hoffset : offset? (after? ':') ['Z'] = some (0, []) := by
    decide
  have hdash : ∀ rest, EndsDigits ('-' :: rest) := endsDigits_cons rfl
  have hcolon : ∀ rest, EndsDigits (':' :: rest) := endsDigits_cons rfl
  have htime : ∀ rest, EndsDigits ('T' :: rest) := endsDigits_cons rfl
  have hfields : ∀ k, k < 100 → ∀ rest, EndsDigits rest →
      number? 2 2 (padded 2 k ++ rest) = some (k, rest) :=
    fun k hk rest => number?_padded (by decide) hk
  unfold parseStrict?
  rw [toList_toString, yearText_eq_padded hlow hhigh]
  simp only [Option.bind_eq_bind, Option.bind_some,
    number?_padded (show 0 < 4 by decide) (show t.date.year.toNat < 10 ^ 4 by omega) (hdash _),
    after?_cons, hfields _ hmonth _ (hdash _), hfields _ hday _ (htime _), afterDate?_cons,
    hfields _ (Nat.lt_trans hhour (by decide)) _ (hcolon _),
    hfields _ (Nat.lt_trans hminute (by decide)) _ (hcolon _),
    hfields _ (Nat.lt_of_le_of_lt hsecond (by decide)) _ (endsDigits_fractionText _),
    fraction?_fractionText t.writtenNanosecond_lt, hoffset, hyear, assemble?_written]
  rfl

/-! ## Stamps -/

theorem padded_append_inj {m n : Nat} {xs ys : List Char} (hm : m < 100) (hn : n < 100)
    (h : padded 2 m ++ xs = padded 2 n ++ ys) : m = n ∧ xs = ys := by
  have hlength : (padded 2 m).length = (padded 2 n).length := by
    rw [length_padded (by decide) hm, length_padded (by decide) hn]
  obtain ⟨hdigits, htail⟩ := List.append_inj h hlength
  refine ⟨?_, htail⟩
  rw [← valueOf_padded 2 m, hdigits, valueOf_padded]

theorem yearText_inj {year year' : Int} (h : yearText year = yearText year') : year = year' := by
  have hend : EndsDigits [] := rfl
  have hread := relaxedYear?_yearText year hend
  rw [h, relaxedYear?_yearText year' hend] at hread
  exact (Prod.mk.inj (Option.some.inj hread)).1.symm

/-- The parts of a stamp after the year, all of them two digits long. -/
def stampTail (t : Instant) : List Char :=
  padded 2 t.date.month ++ (padded 2 t.date.day ++ 'T' :: (padded 2 t.hour ++
    (padded 2 t.minute ++ (padded 2 t.writtenSecond ++ ['Z']))))

theorem toList_timeStamp (t : Instant) :
    t.timeStamp.toList = yearText t.date.year ++ stampTail t := by
  simp [timeStamp, dateStamp, stampTail]

theorem length_stampTail (t : Instant) : (stampTail t).length = 12 := by
  obtain ⟨hmonth, hday⟩ := month_day_lt t.date
  have hlength : ∀ n, n < 100 → (padded 2 n).length = 2 := fun n hn =>
    length_padded (by decide) hn
  have hhour := t.hour_lt
  have hminute := t.minute_lt
  have hsecond := t.writtenSecond_le
  simp only [stampTail, List.length_append, List.length_cons, List.length_nil, hlength _ hmonth,
    hlength _ hday, hlength t.hour (by omega), hlength t.minute (by omega),
    hlength t.writtenSecond (by omega)]

/-- A stamp tells the date and the time of day to the second. -/
theorem timeStamp_eq_iff : t.timeStamp = t'.timeStamp ↔ t.date = t'.date ∧ t.hour = t'.hour ∧
    t.minute = t'.minute ∧ t.writtenSecond = t'.writtenSecond := by
  constructor
  · intro h
    obtain ⟨hmonth, hday⟩ := month_day_lt t.date
    obtain ⟨hmonth', hday'⟩ := month_day_lt t'.date
    have hhour := t.hour_lt
    have hhour' := t'.hour_lt
    have hminute := t.minute_lt
    have hminute' := t'.minute_lt
    have hsecond := t.writtenSecond_le
    have hsecond' := t'.writtenSecond_le
    have htext := congrArg String.toList h
    rw [toList_timeStamp, toList_timeStamp] at htext
    -- the year can have any length, so the stamp is cut where all that follows it starts
    obtain ⟨hyear, htail⟩ :=
      List.append_inj' htext ((length_stampTail t).trans (length_stampTail t').symm)
    obtain ⟨hmonths, htail⟩ := padded_append_inj hmonth hmonth' htail
    obtain ⟨hdays, htail⟩ := padded_append_inj hday hday' htail
    obtain ⟨hhours, htail⟩ := padded_append_inj (by omega) (by omega) (List.cons.inj htail).2
    obtain ⟨hminutes, htail⟩ := padded_append_inj (by omega) (by omega) htail
    obtain ⟨hseconds, -⟩ := padded_append_inj (by omega) (by omega) htail
    refine ⟨?_, hhours, hminutes, hseconds⟩
    cases hdate : t.date
    cases hdate' : t'.date
    rw [hdate, hdate'] at hmonths hdays hyear
    cases hmonths
    cases hdays
    cases yearText_inj hyear
    rfl
  · rintro ⟨hdate, hhour, hminute, hsecond⟩
    rw [timeStamp, timeStamp, dateStamp, dateStamp, hdate, hhour, hminute, hsecond]

/-- The characters of a stamp. -/
theorem mem_timeStamp {c : Char} (h : c ∈ t.timeStamp.toList) :
    isDigit c = true ∨ c ∈ ['+', '-', 'T', 'Z'] := by
  have hdigits : ∀ width n, c ∈ padded width n → isDigit c = true := fun _ _ =>
    isDigit_of_mem_padded _ _
  have hyear : c ∈ yearText t.date.year → isDigit c = true ∨ c ∈ ['+', '-', 'T', 'Z'] := by
    intro hmem
    unfold yearText at hmem
    split at hmem
    · rcases List.mem_cons.1 hmem with rfl | hmem
      · exact .inr (by decide)
      · exact .inl (hdigits _ _ hmem)
    · split at hmem
      · rcases List.mem_cons.1 hmem with rfl | hmem
        · exact .inr (by decide)
        · exact .inl (hdigits _ _ hmem)
      · exact .inl (hdigits _ _ hmem)
  rw [toList_timeStamp, stampTail] at h
  simp only [List.mem_append, List.mem_cons, List.not_mem_nil, or_false] at h
  rcases h with h | h | h | rfl | h | h | h | rfl
  · exact hyear h
  · exact .inl (hdigits _ _ h)
  · exact .inl (hdigits _ _ h)
  · exact .inr (by decide)
  · exact .inl (hdigits _ _ h)
  · exact .inl (hdigits _ _ h)
  · exact .inl (hdigits _ _ h)
  · exact .inr (by decide)

end SourceDocs.Instant
