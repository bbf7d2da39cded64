import TimePhrase.Calendar.DateTime
import TimePhrase.Text.Number

/-!
# Instants in writing

The forms in which messages and answers write an instant, and the form in which one is read.
-/

namespace TimePhrase

open Text (padNat)

/-- The time of day as `HH:MM`. -/
def TimeOfDay.stamp (t : TimeOfDay) : String :=
  s!"{padNat 2 t.hour}:{padNat 2 t.minute}"

namespace Date

/-- The date as `YYYY-MM-DD`. -/
def stamp (d : Date) : String :=
  s!"{padNat 4 d.year}-{padNat 2 d.month}-{padNat 2 d.day}"

end Date

namespace DateTime

/-- The time of day as `HH:MM:SS`, with six more digits after a point unless they are all zero. -/
def clockStamp (t : DateTime) : String :=
  let clock := s!"{padNat 2 t.hour}:{padNat 2 t.minute}:{padNat 2 t.second}"
  if t.micro.val = 0 then clock else s!"{clock}.{padNat 6 t.micro}"

/-- Date and time of day joined by a `T`. -/
def stamp (t : DateTime) : String :=
  s!"{t.date.stamp}T{t.clockStamp}"

/-- Date and time of day joined by a blank. -/
def fullStamp (t : DateTime) : String :=
  s!"{t.date.stamp} {t.clockStamp}"

/-- Date and time of day up to the minute, the year without leading zeros. -/
def minuteStamp (t : DateTime) : String :=
  s!"{t.date.year}-{padNat 2 t.date.month}-{padNat 2 t.date.day} {t.timeOfDay.stamp}"

end DateTime

end TimePhrase
