/-!
# What a vocabulary has words for

Each recognizer looks up its words under keys: the words that may stand before and after a
part, those that make it repeat, and the names and formats that the part is written in.
-/

namespace TimePhrase

/-- What words are listed under. -/
inductive Key
  | timeBefore
  | timeAfter
  | timeFormats
  | timeAm
  | timePm
  | dateBefore
  | dateAfter
  | dateLoopBefore
  | dateLoopAfter
  | dateFormats
  | invertedTimeForms
  | invertedTimeHours
  | invertedTimeMinutes
  | invertedTimeKeywords
  | monthDayBefore
  | monthDayAfter
  | monthDayLoopBefore
  | monthDayLoopAfter
  /-- How a day of the month is marked, the underscore standing for the number. -/
  | monthDayMarks
  | weekdayBefore
  | weekdayAfter
  | weekdayLoopBefore
  | weekdayLoopAfter
  | weekdayNames
  | weekdayShortNames
  | monthBefore
  | monthAfter
  | monthLoopBefore
  | monthLoopAfter
  | monthNames
  | monthShortNames
  | yearBefore
  | yearAfter
  | spanBefore
  | spanAfter
  | spanLoopBefore
  | spanConjunction
  | minutes
  | hours
  | days
  | weeks
  | months
  | years
  | dayKeywords
  | limitFrom
  | limitUntil
  | separators
deriving DecidableEq

/-- All keys. -/
def Key.all : List Key :=
  [timeBefore, timeAfter, timeFormats, timeAm, timePm,
    dateBefore, dateAfter, dateLoopBefore, dateLoopAfter, dateFormats,
    invertedTimeForms, invertedTimeHours, invertedTimeMinutes, invertedTimeKeywords,
    monthDayBefore, monthDayAfter, monthDayLoopBefore, monthDayLoopAfter, monthDayMarks,
    weekdayBefore, weekdayAfter, weekdayLoopBefore, weekdayLoopAfter, weekdayNames,
    weekdayShortNames, monthBefore, monthAfter, monthLoopBefore, monthLoopAfter, monthNames,
    monthShortNames, yearBefore, yearAfter, spanBefore, spanAfter, spanLoopBefore,
    spanConjunction, minutes, hours, days, weeks, months, years, dayKeywords, limitFrom,
    limitUntil, separators]

end TimePhrase
