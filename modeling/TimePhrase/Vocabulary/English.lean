import TimePhrase.Vocabulary.Key

/-!
# The English vocabulary
-/

namespace TimePhrase.English

/-- The words that make a point repeat. -/
def everyWords : List String :=
  ["every ", "any ", "all ", "on every ", "on any ", "on all "]

/-- The ways to write a date: with the year in full, with its last two digits, or without. -/
def dateFormats : List String :=
  ["dd.MM.yyyy", "d.MM.yyyy", "dd.M.yyyy", "d.M.yyyy",
    "dd. MM. yyyy", "d. MM. yyyy", "dd. M. yyyy", "d. M. yyyy",
    "dd-MM-yyyy", "d-MM-yyyy", "dd-M-yyyy", "d-M-yyyy",
    "dd.MM.yy", "d.MM.yy", "dd.M.yy", "d.M.yy",
    "dd. MM. yy", "d. MM. yy", "dd. M. yy", "d. M. yy",
    "dd-MM-yy", "d-MM-yy", "dd-M-yy", "d-M-yy",
    "dd.MM.", "d.MM.", "dd.M.", "d.M.",
    "dd. MM.", "d. MM.", "dd. M.", "d. M.",
    "dd-MM", "d-MM", "dd-M", "d-M"]

/-- The English words. Words with a value have it behind a colon. -/
def words : Key → List String
  | .timeBefore => ["at "]
  | .timeAfter => [" o'clock"]
  | .timeFormats =>
    ["hh:mm ap", "h:mm ap", "hh:m ap", "h:m ap", "hh ap", "h ap", "hh:mm", "h:mm", "hh:m", "h:m",
      "hh", "h"]
  | .timeAm => ["am", "a.m."]
  | .timePm => ["pm", "p.m."]
  | .dateBefore => ["on ", "on the ", "the "]
  | .dateAfter => []
  | .dateLoopBefore => everyWords
  | .dateLoopAfter => []
  | .dateFormats => dateFormats
  | .invertedTimeForms =>
    ["{minutes} past {hours}:+", "{minutes}-past {hours}:+", "{minutes} to {hours}:-"]
  | .invertedTimeHours => ["hh ap", "h ap", "hh", "h"]
  | .invertedTimeMinutes => ["mm", "m"]
  | .invertedTimeKeywords => ["quarter:15", "half:30"]
  | .monthDayBefore => ["on ", "on the ", "the ", "next ", "on next ", "on the next "]
  | .monthDayAfter => [" of"]
  | .monthDayLoopBefore => everyWords
  | .monthDayLoopAfter => []
  | .monthDayMarks => ["_.", "_th", "_st", "_nd", "_rd", "_"]
  | .weekdayBefore => ["on ", "next ", "on next ", "on the next "]
  | .weekdayAfter => []
  | .weekdayLoopBefore => everyWords
  | .weekdayLoopAfter => []
  | .weekdayNames =>
    ["Monday", "Tuesday", "Wednesday", "Thursday", "Friday", "Saturday", "Sunday"]
  | .weekdayShortNames => ["Mon", "Tue", "Wed", "Thu", "Fri", "Sat", "Sun"]
  | .monthBefore =>
    ["in ", "on ", "next ", "on next ", "on the next ", "in next ", "in the next "]
  | .monthAfter => []
  | .monthLoopBefore => everyWords
  | .monthLoopAfter => []
  | .monthNames =>
    ["January", "February", "March", "April", "May", "June", "July", "August", "September",
      "October", "November", "December"]
  | .monthShortNames =>
    ["Jan", "Feb", "Mar", "Apr", "May", "Jun", "Jul", "Aug", "Sep", "Oct", "Nov", "Dec"]
  | .yearBefore => ["in "]
  | .yearAfter => []
  | .spanBefore => ["in "]
  | .spanAfter => []
  | .spanLoopBefore => ["every ", "all "]
  | .spanConjunction => [" and"]
  | .minutes => ["min", "mins", "minute", "minutes"]
  | .hours => ["hour", "hours"]
  | .days => ["day", "days"]
  | .weeks => ["week", "weeks"]
  | .months => ["mon", "mons", "month", "months"]
  | .years => ["year", "years"]
  | .dayKeywords => ["today:0", "tomorrow:1", "day after tomorrow:2"]
  | .limitFrom => ["from"]
  | .limitUntil => ["until", "to"]
  | .separators => [";"]

end TimePhrase.English
