/-!
# Dates of the civil calendar

A `Date` is a real day of the proleptic Gregorian calendar in the years 1 to 9999.
`Date.toDays` counts the days since 1 January of year 1, and `Date.ofDays?` reads
such a count back; both agree on which day is which, so moving by days is adding
to the count.
-/

namespace TimePhrase

/-- A year divisible by four is a leap year, except for the centuries that 400 does not divide. -/
def isLeapYear (year : Nat) : Bool :=
  year % 4 == 0 && (year % 100 != 0 || year % 400 == 0)

/-- The lengths of the twelve months of a year. -/
def monthLengths (year : Nat) : List Nat :=
  [31, if isLeapYear year then 29 else 28, 31, 30, 31, 30, 31, 31, 30, 31, 30, 31]

/-- The length of a month, zero for a number that names no month. -/
def daysInMonth (year month : Nat) : Nat :=
  if month = 0 then 0 else (monthLengths year).getD (month - 1) 0

/-- The first and the last year a date can lie in. -/
def firstYear : Nat := 1

@[inherit_doc firstYear]
def lastYear : Nat := 9999

/-- The numbers name a day that the calendar has. -/
def IsDate (year month day : Nat) : Prop :=
  firstYear ≤ year ∧ year ≤ lastYear ∧ 1 ≤ month ∧ month ≤ 12 ∧
    1 ≤ day ∧ day ≤ daysInMonth year month

instance (year month day : Nat) : Decidable (IsDate year month day) := by
  unfold IsDate; infer_instance

/-- A day of the calendar. -/
structure Date where
  year : Nat
  month : Nat
  day : Nat
  isDate : IsDate year month day
deriving DecidableEq

namespace Date

/-- The date with the given numbers, if the calendar has it. -/
def of? (year month day : Int) : Option Date :=
  if h : 0 ≤ year ∧ 0 ≤ month ∧ 0 ≤ day ∧ IsDate year.toNat month.toNat day.toNat then
    some ⟨year.toNat, month.toNat, day.toNat, h.2.2.2⟩
  else
    none

/-- The number of days before 1 January of a year. -/
def daysBeforeYear (year : Nat) : Nat :=
  365 * (year - 1) + (year - 1) / 4 - (year - 1) / 100 + (year - 1) / 400

/-- The number of days of a year before the first of a month. -/
def daysBeforeMonth (year month : Nat) : Nat :=
  ((monthLengths year).take (month - 1)).foldl (· + ·) 0

/-- The number of days since 1 January of year 1. -/
def toDays (d : Date) : Nat :=
  daysBeforeYear d.year + daysBeforeMonth d.year d.month + (d.day - 1)

/-- The year that holds the day with the given count. The mean length of a year gives the
year or the one before it, and a second look at the count settles which. -/
def yearOfDays (days : Nat) : Nat :=
  let year := days * 400 / 146097 + 1
  if daysBeforeYear (year + 1) ≤ days then year + 1 else year

/-- Finds the month and the day of a day of the year: `days` are left, counted from the
first of the month with number `month`, whose length heads the list. -/
def monthAndDay (month days : Nat) : List Nat → Nat × Nat
  | [] => (month, days + 1)
  | length :: rest =>
    if days < length then (month, days + 1) else monthAndDay (month + 1) (days - length) rest

/-- The day with the given count, if it lies in the calendar. -/
def ofDays? (days : Int) : Option Date :=
  if days < 0 then none
  else
    let year := yearOfDays days.toNat
    let (month, day) := monthAndDay 1 (days.toNat - daysBeforeYear year) (monthLengths year)
    of? year month day

/-- The date the given number of days later. -/
def addDays? (d : Date) (count : Int) : Option Date :=
  ofDays? (d.toDays + count)

/-- The day of the week, Monday being 1 and Sunday 7. -/
def weekday (d : Date) : Nat :=
  d.toDays % 7 + 1

/-- The number of months since the first month of year 0. -/
def monthIndex (d : Date) : Nat :=
  12 * d.year + (d.month - 1)

/-- The day of a month that is nearest to the wanted one: the last day stands for the days
that the month lacks. Fails when there is no such month in the calendar, or the wanted day
is not positive. -/
def ofClamped? (year month day : Int) : Option Date :=
  of? year month (min day (daysInMonth year.toNat month.toNat))

/-- The date the given number of months later, on the same day of the month or on the last
day of a month that is too short. -/
def addMonths? (d : Date) (count : Int) : Option Date :=
  let index := (d.monthIndex : Int) + count
  ofClamped? (index / 12) (index % 12 + 1) d.day

end Date

end TimePhrase
