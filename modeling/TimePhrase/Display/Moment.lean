import TimePhrase.Part.Describe

/-!
# Instants relative to a day

An instant as it is told to somebody on a given day: by the time alone on that day, by the
weekday within the week after it, and by the full date otherwise.
-/

namespace TimePhrase

open Text (padNat)

/-- The hour on a clock of twelve hours. -/
def hourOnDial (hour : Nat) : Nat :=
  if hour % 12 = 0 then 12 else hour % 12

/-- The time of day of an instant. On a clock of twelve hours full hours have no minutes. -/
def DateTime.displayClock (t : DateTime) (twelveHours : Bool) : String :=
  if twelveHours then
    let minutes := if t.minute.val = 0 then "" else ":" ++ padNat 2 t.minute
    toString (hourOnDial t.hour) ++ minutes ++ if t.hour.val < 12 then "am" else "pm"
  else
    t.timeOfDay.stamp

/-- An instant as it is told on the day `today`. -/
def DateTime.display (t : DateTime) (twelveHours : Bool) (today : Date) : String :=
  let days : Int := t.date.toDays - today.toDays
  let clock := t.displayClock twelveHours
  if days = 0 then s!"today at {clock}"
  else if 0 < days ∧ days ≤ 6 then
    s!"{(nameOf? weekdayNames t.weekday).getD default} at {clock}"
  else
    let month := (nameOf? monthNames t.date.month).getD default
    s!"{month} {t.date.day}, {t.date.year} at {clock}"

end TimePhrase
