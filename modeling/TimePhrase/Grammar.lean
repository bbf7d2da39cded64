import TimePhrase.Format
import TimePhrase.Pattern
import TimePhrase.Text.Letter
import TimePhrase.Vocabulary

/-!
# The grammar of parts

The patterns by which the parts of an expression are recognized, made from the words of a
vocabulary. Every pattern takes in the blanks behind a part.
-/

namespace TimePhrase

/-- The pieces of a part that its numbers and names are read from. -/
inductive Field
  | hour
  | minute
  | second
  /-- The word for the half of the day. -/
  | halfDay
  /-- The minutes of an inverted time, in digits or in words. -/
  | minutes
  | hours
  | day
  | month
  | year
  | shortYear
  | name
  | count
  | unit
deriving DecidableEq

/-- What a format in a vocabulary stands for. -/
abbrev Tokens := List (List Char × Pattern Field)

/-- The patterns of one language, for each kind of part in the order in which they are tried. -/
structure Grammar where
  times : List (Pattern Field)
  /-- Inverted times, and whether the minutes are missing to the hour. -/
  invertedTimes : List (Pattern Field × Bool)
  /-- The words for numbers of minutes. -/
  minuteWords : List (String × Nat)
  /-- The words for the first half of the day. -/
  amWords : List String
  /-- Points that may repeat, and whether they do. -/
  dates : List (Pattern Field × Bool)
  monthDays : List (Pattern Field × Bool)
  weekdays : List (Pattern Field × Bool)
  weekdayNumbers : List (String × Nat)
  months : List (Pattern Field × Bool)
  monthNumbers : List (String × Nat)
  year : Pattern Field
  /-- The opening and the items of a repeating span. -/
  loopSpan : Option (Pattern Field) × Pattern Field
  /-- The opening and the items of a single span. -/
  onceSpan : Pattern Field × Pattern Field
  units : List (String × TimeUnit)
  dayKeywords : List (Pattern Field × Nat)
  limiters : List (Pattern Field × Side)

namespace Grammar

open Pattern (digits firstOf literal oneOf blanks someBlanks wordEnd)

/-- The small form of a word. -/
def small (word : String) : String := String.ofList (Text.lower word.toList)

/-- The pattern for a format, by the patterns of its tokens. -/
def ofFormat (tokens : Tokens) (format : String) : Pattern Field :=
  .sequence <| (Format.pieces tokens format.toList).map fun
    | .char c => .one (.exactly c)
    | .token p => p

/-- A part followed by blanks. -/
def closed (p : Pattern Field) : Pattern Field := .seq p blanks

/-- One of the words, or none of them. -/
def optionalWords (words : List String) : Pattern Field :=
  if words.isEmpty then .empty else .optional (oneOf words)

/-- The words that surround a part, and whether they make it repeat. -/
structure Frame where
  before : Pattern Field
  after : Pattern Field
  looped : Bool

/-- A part with the words that surround it. -/
def Frame.around (frame : Frame) (p : Pattern Field) : Pattern Field × Bool :=
  (closed (.sequence [frame.before, p, frame.after]), frame.looped)

/-- The ways to surround a part, in the order in which they are tried. A repetition needs one
of its words, before the part or after it; all other words may be left out. -/
def frames (locale : Locale) (before after loopBefore loopAfter : Key) : List Frame :=
  let plainBefore := optionalWords (locale.longest before)
  let plainAfter := optionalWords (locale.longest after)
  let looped (words : List String) (frame : Pattern Field → Frame) : List Frame :=
    if words.isEmpty then [] else [frame (oneOf words)]
  looped (locale.longest loopBefore) (⟨·, plainAfter, true⟩) ++
    looped (locale.longest loopAfter) (⟨plainBefore, ·, true⟩) ++
    [⟨plainBefore, plainAfter, false⟩]

/-- The tokens for the half of the day, where the language has words for it. -/
def halfDayTokens (locale : Locale) : Tokens :=
  let am := locale.longest .timeAm
  let pm := locale.longest .timePm
  if am.isEmpty || pm.isEmpty then []
  else
    let halfDay := .seq blanks (.group .halfDay (oneOf (am ++ pm)))
    [("ap".toList, halfDay), ("AP".toList, halfDay)]

/-- The tokens of formats of times. -/
def timeTokens (locale : Locale) : Tokens :=
  [("hh".toList, digits .hour 2 2), ("h".toList, digits .hour 1 2),
    ("mm".toList, digits .minute 2 2), ("m".toList, digits .minute 1 2),
    ("ss".toList, digits .second 2 2), ("s".toList, digits .second 1 2)] ++ halfDayTokens locale

/-- The word occurs in the text. -/
def holds (word : List Char) : List Char → Bool
  | [] => word.isEmpty
  | c :: cs => word.isPrefixOf (c :: cs) || holds word cs

/-- The formats of times under a key, without those for the half of the day where the language
has no words for it. -/
def timeFormats (locale : Locale) (key : Key) : List String :=
  let formats := locale.words key
  if (halfDayTokens locale).isEmpty then
    formats.filter fun f => !holds "ap".toList (Text.lower f.toList)
  else
    formats

def timesOf (locale : Locale) : List (Pattern Field) :=
  let before := optionalWords (locale.longest .timeBefore)
  let after := optionalWords (locale.longest .timeAfter)
  (timeFormats locale .timeFormats).map fun format =>
    closed (.sequence [before, ofFormat (timeTokens locale) format, after])

/-- The number that a value in a vocabulary stands for. -/
def valueOf (text : String) : Nat := Text.digitsValue text.toList

/-- The words under a key with their values as numbers, the longest entry first. -/
def numberWords (locale : Locale) (key : Key) : List (String × Nat) :=
  (locale.keywords key).map fun (word, value) => (word, valueOf value)

def invertedTimesOf (locale : Locale) : List (Pattern Field × Bool) :=
  let before := optionalWords (locale.longest .timeBefore)
  let after := optionalWords (locale.longest .timeAfter)
  let tokens := timeTokens locale
  let words := (numberWords locale .invertedTimeKeywords).map fun w => literal w.1.toList
  (locale.words .invertedTimeForms).flatMap fun form =>
    let (template, sign) := cutAtLastColon form.toList
    (timeFormats locale .invertedTimeHours).flatMap fun hourFormat =>
      (locale.words .invertedTimeMinutes).map fun minuteFormat =>
        let form := ofFormat
          [("\x7bminutes\x7d".toList,
              .group .minutes (firstOf (ofFormat tokens minuteFormat :: words))),
            ("\x7bhours\x7d".toList, .group .hours (ofFormat tokens hourFormat))]
          (String.ofList template)
        (closed (.sequence [before, form, after]), sign = ['-'])

/-- The tokens of formats of dates. -/
def dateTokens : Tokens :=
  [("dd".toList, digits .day 2 2), ("d".toList, digits .day 1 2),
    ("MM".toList, digits .month 2 2), ("M".toList, digits .month 1 2),
    ("yyyy".toList, digits .year 4 4), ("yy".toList, digits .shortYear 2 2)]

/-- Dates in all frames. Only a date without a year can repeat. -/
def datesOf (locale : Locale) : List (Pattern Field × Bool) :=
  let formats := locale.words .dateFormats
  (frames locale .dateBefore .dateAfter .dateLoopBefore .dateLoopAfter).flatMap fun frame =>
    let usable := if frame.looped then formats.filter (!holds "yy".toList ·.toList) else formats
    usable.map fun format => frame.around (ofFormat dateTokens format)

/-- A day of the month with its mark. -/
def monthDay (mark : String) : Pattern Field :=
  let mark := mark.toList
  .sequence [literal (mark.takeWhile (· ≠ '_')), digits .day 1 2,
    literal ((mark.dropWhile (· ≠ '_')).drop 1)]

def monthDaysOf (locale : Locale) : List (Pattern Field × Bool) :=
  let marks := (locale.longest .monthDayMarks).map monthDay
  (frames locale .monthDayBefore .monthDayAfter .monthDayLoopBefore .monthDayLoopAfter).flatMap
    fun frame => marks.map frame.around

/-- The names under a key in small letters, numbered from one. -/
def numberedNames (locale : Locale) (key : Key) : List (String × Nat) :=
  (locale.words key).zipIdx.map fun (name, i) => (small name, i + 1)

/-- The names under both keys with their numbers, each name once. -/
def namesOf (locale : Locale) (long short : Key) : List (String × Nat) :=
  let longNames := numberedNames locale long
  longNames ++ (numberedNames locale short).filter fun n => !longNames.any (·.1 = n.1)

/-- One of the names, which must not stop in the middle of a word. -/
def name (names : List (String × Nat)) : Pattern Field :=
  .seq (.group .name (oneOf (longestFirst (names.map (·.1))))) wordEnd

def yearOf (locale : Locale) : Pattern Field :=
  closed <| .sequence [optionalWords (locale.longest .yearBefore),
    .group .year (.seq (.optional (.one (.exactly '-'))) (.run .digit 4 none)),
    .notFollowedBy (.one .digit), optionalWords (locale.longest .yearAfter)]

/-- The key that the words for a unit are listed under. -/
def unitKey : TimeUnit → Key
  | .year => .years
  | .month => .months
  | .week => .weeks
  | .day => .days
  | .hour => .hours
  | .minute => .minutes

/-- The words for units, in small letters. -/
def unitsOf (locale : Locale) : List (String × TimeUnit) :=
  TimeUnit.all.flatMap fun unit => (locale.longest (unitKey unit)).map fun w => (small w, unit)

/-- One of the words for units, up to its end. -/
def unitWord (locale : Locale) : Pattern Field :=
  let words := TimeUnit.all.flatMap fun unit => locale.longest (unitKey unit)
  .seq (oneOf (longestFirst words)) wordEnd

/-- A count of units. In a repetition the number may be left out. -/
def countOf (looped : Bool) (number : Pattern Field) : Pattern Field :=
  let count := .seq number someBlanks
  if looped then .optional count else count

/-- One item of a span. The conjunction belongs to the span only if another item follows. -/
def spanItem (locale : Locale) (looped : Bool) : Pattern Field :=
  let number : Pattern Field := .run .digit 1 none
  let conjunction := locale.longest .spanConjunction
  let another := .followedBy (.sequence [blanks, countOf looped number, unitWord locale])
  let joined := if conjunction.isEmpty then [] else [.seq (oneOf conjunction) another]
  let after := locale.longest .spanAfter
  let ends := joined ++ if after.isEmpty then [] else [oneOf after]
  closed <| .sequence [countOf looped (.group .count number), .group .unit (unitWord locale),
    if ends.isEmpty then .empty else .optional (firstOf ends)]

def dayKeywordsOf (locale : Locale) : List (Pattern Field × Nat) :=
  (numberWords locale .dayKeywords).map fun (word, days) =>
    (closed (.seq (literal word.toList) wordEnd), days)

/-- A limiter stands before a blank or at the end of the text. -/
def limitersOf (locale : Locale) : List (Pattern Field × Side) :=
  [(Key.limitFrom, Side.lower), (Key.limitUntil, Side.upper)].filterMap fun (key, side) =>
    let words := locale.longest key
    if words.isEmpty then none
    else some (closed (.seq (oneOf words) (.followedBy (.alt (.one .blank) .atEnd))), side)

/-- The grammar for the words of a language. -/
def ofLocale (locale : Locale) : Grammar :=
  let weekdayNumbers := namesOf locale .weekdayNames .weekdayShortNames
  let monthNumbers := namesOf locale .monthNames .monthShortNames
  let loopSpanWords := locale.longest .spanLoopBefore
  { times := timesOf locale
    invertedTimes := invertedTimesOf locale
    minuteWords := (numberWords locale .invertedTimeKeywords).map fun (w, n) => (small w, n)
    amWords := (locale.longest .timeAm).map small
    dates := datesOf locale
    monthDays := monthDaysOf locale
    weekdays :=
      (frames locale .weekdayBefore .weekdayAfter .weekdayLoopBefore .weekdayLoopAfter).map
        (·.around (name weekdayNumbers))
    weekdayNumbers
    months :=
      (frames locale .monthBefore .monthAfter .monthLoopBefore .monthLoopAfter).map
        (·.around (name monthNumbers))
    monthNumbers
    year := yearOf locale
    loopSpan :=
      (if loopSpanWords.isEmpty then none else some (closed (oneOf loopSpanWords)),
        spanItem locale true)
    onceSpan := (closed (optionalWords (locale.longest .spanBefore)), spanItem locale false)
    units := unitsOf locale
    dayKeywords := dayKeywordsOf locale
    limiters := limitersOf locale }

/-- The grammar of English expressions. -/
def english : Grammar := ofLocale .english

/-- The grammar of German expressions. -/
def german : Grammar := ofLocale .german

end Grammar

/-- The grammar of a language. -/
def Locale.grammar : Locale → Grammar
  | english => .english
  | german => .german

end TimePhrase
