import SourceDocs.Text.Padding

set_option autoImplicit false

/-! # Instants: calendar dates with a time of day in UTC

An `Instant` is kept as its calendar fields, exact to the nanosecond. A leap second is kept as the
second before it that goes on: its nanoseconds count from 1000000000. `Instant.text` is the one
written form: the fraction has no, three, six or nine digits, the fewest that are exact, a year
outside `0 … 9999` carries its sign, and a leap second is one second more than the second that it
goes on. So the leap second of the last second of a minute is written as the second sixty, and that
of any other second as the second after that (`Instant.IsRegular` tells them apart). -/

namespace SourceDocs

/-- Whether a year has a 29th of February. -/
def isLeapYear (year : Int) : Bool :=
  year % 4 = 0 && (year % 100 ≠ 0 || year % 400 = 0)

/-- The number of days in a month of a year. -/
def daysInMonth (year : Int) (month : Nat) : Nat :=
  if month = 2 then if isLeapYear year then 29 else 28
  else if month = 4 || month = 6 || month = 9 || month = 11 then 30
  else 31

/-- The first year that has dates. -/
def minYear : Int := -262143

/-- The last year that has dates. -/
def maxYear : Int := 262142

/-- Whether a year, a month and a day make a date. -/
def isDate (year : Int) (month day : Nat) : Bool :=
  minYear ≤ year && year ≤ maxYear && 1 ≤ month && month ≤ 12 && 1 ≤ day &&
    day ≤ daysInMonth year month

/-- A date of the proleptic Gregorian calendar. -/
structure Date where
  year : Int
  month : Nat
  day : Nat
  valid : isDate year month day = true
  deriving DecidableEq

namespace Date

/-- The date of a year, a month and a day, if there is one. -/
def of? (year : Int) (month day : Nat) : Option Date :=
  if valid : isDate year month day = true then some { year, month, day, valid } else none

/-- The first of January 1970. -/
def epoch : Date :=
  { year := 1970, month := 1, day := 1, valid := by decide }

/-- The day after. -/
def next? (d : Date) : Option Date :=
  if d.day < daysInMonth d.year d.month then of? d.year d.month (d.day + 1)
  else if d.month < 12 then of? d.year (d.month + 1) 1
  else of? (d.year + 1) 1 1

/-- The day before. -/
def previous? (d : Date) : Option Date :=
  if 1 < d.day then of? d.year d.month (d.day - 1)
  else if 1 < d.month then of? d.year (d.month - 1) (daysInMonth d.year (d.month - 1))
  else of? (d.year - 1) 12 31

/-- The date a number of days after the first of January 1970. Years are counted from March, so
that the day that may be missing is the last of its year, in cycles of 400 years. -/
def ofDays? (days : Int) : Option Date :=
  let shifted := days + 719468
  let cycle := shifted / 146097
  let day := (shifted % 146097).toNat
  let yearOfCycle := (day - day / 1460 + day / 36524 - day / 146096) / 365
  let dayOfYear := day - (365 * yearOfCycle + yearOfCycle / 4 - yearOfCycle / 100)
  let monthFromMarch := (5 * dayOfYear + 2) / 153
  let dayOfMonth := dayOfYear - (153 * monthFromMarch + 2) / 5 + 1
  let year := cycle * 400 + yearOfCycle
  if monthFromMarch < 10 then of? year (monthFromMarch + 3) dayOfMonth
  else of? (year + 1) (monthFromMarch - 9) dayOfMonth

end Date

/-- A point in time. -/
structure Instant where
  date : Date
  hour : Nat
  minute : Nat
  second : Nat
  /-- From 1000000000 on in a leap second. -/
  nanosecond : Nat
  hour_lt : hour < 24
  minute_lt : minute < 60
  second_lt : second < 60
  nanosecond_lt : nanosecond < 2000000000
  deriving DecidableEq

namespace Instant

/-- The instant of a date and a time of day, if that is one. -/
def of? (date : Date) (hour minute second nanosecond : Nat) : Option Instant :=
  if h : hour < 24 ∧ minute < 60 ∧ second < 60 ∧ nanosecond < 2000000000 then
    some { date, hour, minute, second, nanosecond, hour_lt := h.1, minute_lt := h.2.1,
           second_lt := h.2.2.1, nanosecond_lt := h.2.2.2 }
  else none

/-- The instant of a date and a time of day as they are written, a leap second as the second
sixty. -/
def ofWritten? (date : Date) (hour minute second nanosecond : Nat) : Option Instant :=
  if nanosecond < 1000000000 then
    if second = 60 then of? date hour minute 59 (nanosecond + 1000000000)
    else of? date hour minute second nanosecond
  else none

/-- The second as it is written. -/
def writtenSecond (t : Instant) : Nat := t.second + t.nanosecond / 1000000000

/-- The fraction of the second as it is written, in nanoseconds. -/
def writtenNanosecond (t : Instant) : Nat := t.nanosecond % 1000000000

/-- An instant is not in a leap second, or in that of the last second of a minute. -/
def IsRegular (t : Instant) : Prop :=
  1000000000 ≤ t.nanosecond → t.second = 59

instance (t : Instant) : Decidable t.IsRegular :=
  inferInstanceAs (Decidable (_ → _))

/-- The start of 1970. -/
def epoch : Instant :=
  { date := .epoch, hour := 0, minute := 0, second := 0, nanosecond := 0, hour_lt := by decide,
    minute_lt := by decide, second_lt := by decide, nanosecond_lt := by decide }

/-- The instant some seconds and nanoseconds after the start of 1970. -/
def ofUnix? (seconds : Int) (nanoseconds : Nat) : Option Instant := do
  let date ← Date.ofDays? (seconds / 86400)
  let second := (seconds % 86400).toNat
  of? date (second / 3600) (second / 60 % 60) (second % 60) nanoseconds

/-- The instant at which clocks that are `minutes` ahead of UTC, by less than a day, show the fields
of `shown`. -/
def ofLocal? (shown : Instant) (minutes : Int) : Option Instant := do
  let m : Int := (shown.hour * 60 + shown.minute : Nat) - minutes
  let date ←
    if m < 0 then shown.date.previous? else if 1440 ≤ m then shown.date.next? else shown.date
  let m := (m % 1440).toNat
  of? date (m / 60) (m % 60) shown.second shown.nanosecond

/-! ## Text -/

/-- The digits of a number, with zeros before them up to a width. -/
def padded (width n : Nat) : List Char :=
  Text.padNumber '0' width n

/-- A year in four digits, or with its sign and at least four. -/
def yearText (year : Int) : List Char :=
  if year < 0 then '-' :: padded 4 year.natAbs
  else if 9999 < year then '+' :: padded 4 year.natAbs
  else padded 4 year.natAbs

/-- The fraction of a second. -/
def fractionText (nanosecond : Nat) : List Char :=
  if nanosecond = 0 then []
  else if nanosecond % 1000000 = 0 then '.' :: padded 3 (nanosecond / 1000000)
  else if nanosecond % 1000 = 0 then '.' :: padded 6 (nanosecond / 1000)
  else '.' :: padded 9 nanosecond

/-- The written form of an instant. -/
def text (t : Instant) : List Char :=
  yearText t.date.year ++ '-' :: padded 2 t.date.month ++ '-' :: padded 2 t.date.day ++
    'T' :: padded 2 t.hour ++ ':' :: padded 2 t.minute ++ ':' :: padded 2 t.writtenSecond ++
    fractionText t.writtenNanosecond ++ ['Z']

instance : ToString Instant := ⟨fun t => String.ofList t.text⟩

/-- The date without separators. -/
def dateStamp (t : Instant) : String :=
  String.ofList (yearText t.date.year ++ padded 2 t.date.month ++ padded 2 t.date.day)

/-- The date and the time to the second, without separators. -/
def timeStamp (t : Instant) : String :=
  t.dateStamp ++ String.ofList ('T' :: padded 2 t.hour ++ padded 2 t.minute ++
    padded 2 t.writtenSecond ++ ['Z'])

end Instant

end SourceDocs
