import TimePhrase.Calendar.Date

/-!
# Instants of local time

A `DateTime` is a date with a time of day down to the microsecond. Instants are ordered
by `DateTime.toMicros`, the number of microseconds since the calendar begins.
-/

namespace TimePhrase

/-- A time of day as people write it, in hours and minutes. -/
structure TimeOfDay where
  hour : Fin 24
  minute : Fin 60
deriving DecidableEq

namespace TimeOfDay

/-- Midnight. -/
def midnight : TimeOfDay := ⟨0, 0⟩

/-- The time of day with the given numbers, if there is one. -/
def of? (hour minute : Int) : Option TimeOfDay :=
  if h : (0 ≤ hour ∧ hour < 24) ∧ 0 ≤ minute ∧ minute < 60 then
    some ⟨⟨hour.toNat, by omega⟩, ⟨minute.toNat, by omega⟩⟩
  else
    none

end TimeOfDay

/-- An instant of local time. -/
structure DateTime where
  date : Date
  hour : Fin 24
  minute : Fin 60
  second : Fin 60
  micro : Fin 1000000
deriving DecidableEq

namespace DateTime

/-- The microseconds of one minute, hour and day. -/
def microsPerMinute : Nat := 60 * 1000000

@[inherit_doc microsPerMinute]
def microsPerHour : Nat := 60 * microsPerMinute

@[inherit_doc microsPerMinute]
def microsPerDay : Nat := 24 * microsPerHour

/-- The microseconds since midnight. -/
def microsOfDay (t : DateTime) : Nat :=
  ((t.hour * 60 + t.minute) * 60 + t.second) * 1000000 + t.micro

/-- The microseconds since the calendar begins. -/
def toMicros (t : DateTime) : Nat :=
  t.date.toDays * microsPerDay + t.microsOfDay

/-- The instant of a date that lies the given number of microseconds after its midnight. -/
def onDay (date : Date) (micros : Nat) : DateTime where
  date := date
  hour := Fin.ofNat 24 (micros / microsPerHour)
  minute := Fin.ofNat 60 (micros / microsPerMinute)
  second := Fin.ofNat 60 (micros / 1000000)
  micro := Fin.ofNat 1000000 micros

/-- The instant with the given count of microseconds, if it lies in the calendar. -/
def ofMicros? (micros : Int) : Option DateTime :=
  (Date.ofDays? (micros / microsPerDay)).map fun date =>
    onDay date (micros % microsPerDay).toNat

instance : LT DateTime := ⟨fun a b => a.toMicros < b.toMicros⟩
instance : LE DateTime := ⟨fun a b => a.toMicros ≤ b.toMicros⟩
instance (a b : DateTime) : Decidable (a < b) := inferInstanceAs (Decidable (a.toMicros < _))
instance (a b : DateTime) : Decidable (a ≤ b) := inferInstanceAs (Decidable (a.toMicros ≤ _))

/-- The day of the week, Monday being 1 and Sunday 7. -/
def weekday (t : DateTime) : Nat := t.date.weekday

/-- The hour and the minute of an instant. -/
def timeOfDay (t : DateTime) : TimeOfDay := ⟨t.hour, t.minute⟩

/-- The same date at the given time of day, with no seconds. -/
def atTime (t : DateTime) (time : TimeOfDay) : DateTime where
  date := t.date
  hour := time.hour
  minute := time.minute
  second := 0
  micro := 0

/-- The same time of day on another date. -/
def onDate (t : DateTime) (date : Date) : DateTime := { t with date := date }

/-- The instant the given number of microseconds later. -/
def addMicros? (t : DateTime) (count : Int) : Option DateTime :=
  ofMicros? (t.toMicros + count)

/-- The same time of day the given number of days later. -/
def addDays? (t : DateTime) (count : Int) : Option DateTime :=
  (t.date.addDays? count).map t.onDate

/-- The same time of day the given number of months later. -/
def addMonths? (t : DateTime) (count : Int) : Option DateTime :=
  (t.date.addMonths? count).map t.onDate

end DateTime

end TimePhrase
