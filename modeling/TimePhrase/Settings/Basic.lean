import TimePhrase.Settings.ClockTime
import TimePhrase.Toml.Document
import TimePhrase.Vocabulary

/-!
# Settings

What the user can choose, with the values that hold where nothing is chosen.
-/

namespace TimePhrase

/-- A number of worker threads. -/
abbrev WorkerCount := { n : Nat // 1 ≤ n ∧ n ≤ 64 }

/-- A time of day as the user has written it. -/
structure WrittenTime where
  text : String
  time : ClockTime
  reads : ClockTime.read? text = some time

/-- The time that a text names. -/
def WrittenTime.of? (text : String) : Option WrittenTime :=
  match h : ClockTime.read? text with
  | some time => some ⟨text, time, h⟩
  | none => none

/-- Midnight. -/
def WrittenTime.midnight : WrittenTime := (WrittenTime.of? "00:00").get (by decide)

/-- What the user can choose. -/
structure Settings where
  title : String
  /-- The language of expressions. -/
  locale : Locale
  workers : WorkerCount
  /-- The time of day for expressions that name a day and no time. -/
  defaultTime : WrittenTime
  /-- The expression after which a reminder comes back when none is given. -/
  snooze : String
  /-- The expressions that are offered for reminders. -/
  presets : List String
  /-- Times are shown on a clock of twelve hours. -/
  twelveHours : Bool
  /-- What the program does is entered in its journal. -/
  journal : Bool

/-- The settings of a user who has chosen nothing. -/
def Settings.standard : Settings where
  title := "Whenparse Configuration"
  locale := .english
  workers := ⟨4, by decide⟩
  defaultTime := .midnight
  snooze := "in 20 minutes"
  presets := ["in 20 minutes", "in 1 hour", "in 3 hours", "tomorrow", "in 1 week on Monday"]
  twelveHours := false
  journal := true

end TimePhrase
