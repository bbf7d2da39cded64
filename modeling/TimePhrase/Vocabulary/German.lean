import TimePhrase.Vocabulary.English

/-!
# The German vocabulary
-/

namespace TimePhrase.German

/-- The words that make a point repeat. -/
def everyWords : List String :=
  ["jeden ", "jede ", "jedes ", "alle ", "am jeden "]

/-- The German words. Words with a value have it behind a colon. -/
def words : Key → List String
  | .timeBefore => ["um "]
  | .timeAfter => [" Uhr"]
  | .timeFormats => ["hh:mm", "h:mm", "hh:m", "h:m", "hh", "h"]
  | .timeAm => []
  | .timePm => []
  | .dateBefore => ["am ", "den ", "am den "]
  | .dateAfter => []
  | .dateLoopBefore => everyWords
  | .dateLoopAfter => []
  | .dateFormats => English.dateFormats
  | .invertedTimeForms => ["{minutes} nach {hours}:+", "{minutes} vor {hours}:-"]
  | .invertedTimeHours => ["hh", "h"]
  | .invertedTimeMinutes => ["mm", "m"]
  | .invertedTimeKeywords => ["viertel:15"]
  | .monthDayBefore => ["am ", "den ", "am nächsten "]
  | .monthDayAfter => []
  | .monthDayLoopBefore => everyWords
  | .monthDayLoopAfter => []
  | .monthDayMarks => ["_.", "_"]
  | .weekdayBefore => ["am ", "nächsten ", "am nächsten "]
  | .weekdayAfter => []
  | .weekdayLoopBefore => everyWords
  | .weekdayLoopAfter => []
  | .weekdayNames =>
    ["Montag", "Dienstag", "Mittwoch", "Donnerstag", "Freitag", "Samstag", "Sonntag"]
  | .weekdayShortNames => ["Mo", "Di", "Mi", "Do", "Fr", "Sa", "So"]
  | .monthBefore => ["im ", "nächsten ", "im nächsten "]
  | .monthAfter => []
  | .monthLoopBefore => everyWords
  | .monthLoopAfter => []
  | .monthNames =>
    ["Januar", "Februar", "März", "April", "Mai", "Juni", "Juli", "August", "September",
      "Oktober", "November", "Dezember"]
  | .monthShortNames =>
    ["Jan", "Feb", "Mär", "Apr", "Mai", "Jun", "Jul", "Aug", "Sep", "Okt", "Nov", "Dez"]
  | .yearBefore => ["im Jahr ", "in "]
  | .yearAfter => []
  | .spanBefore => ["in "]
  | .spanAfter => []
  | .spanLoopBefore => ["alle ", "jede ", "jeden ", "jedes "]
  | .spanConjunction => [" und"]
  | .minutes => ["min", "minute", "minuten"]
  | .hours => ["std", "stunde", "stunden"]
  | .days => ["tag", "tage", "tagen"]
  | .weeks => ["woche", "wochen"]
  | .months => ["monat", "monate", "monaten"]
  | .years => ["jahr", "jahre", "jahren"]
  | .dayKeywords => ["heute:0", "morgen:1", "übermorgen:2"]
  | .limitFrom => ["ab", "von"]
  | .limitUntil => ["bis"]
  | .separators => [";"]

end TimePhrase.German
