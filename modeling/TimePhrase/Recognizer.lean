import TimePhrase.Grammar

/-!
# Recognizing a part

A recognizer for each kind of part. It looks at the beginning of a text and answers with
the part that it finds there, if any, and with what is left of the text.

Letters are compared without regard to case, but a name is looked up in the vocabulary by
its small form. A few letters that count as equal have no such form; a word spelled with
them is recognized and then not found, which is a failure and not a mismatch.
-/

namespace TimePhrase

/-- What a recognizer finds: a part and the text behind it. -/
structure Found where
  part : Part
  rest : List Char

namespace Recognizer

/-- The number that digits stand for, unless there are too many of them. -/
def readNumber (digits : List Char) : Except Failure Nat :=
  if Text.maxDigits < digits.length then .error (.numberTooLong digits.length)
  else .ok (Text.digitsValue digits)

/-- The meaning of a word, case ignored. -/
def lookUp {α : Type} (meanings : List (String × α)) (word : List Char) : Except Failure α :=
  let small := String.ofList (Text.lower word)
  match meanings.find? (·.1 = small) with
  | some (_, meaning) => .ok meaning
  | none => .error (.unknownWord small)

/-- The way in which a text begins with a pattern, letter case ignored. -/
def begins (p : Pattern Field) (text : List Char) : Option (Match Field) :=
  p.first? Text.sameLetter text

/-- The number under a label that holds few digits. -/
def shortNumber? (m : Match Field) (field : Field) : Option Nat :=
  (m.group? field).map Text.digitsValue

/-- Tries patterns in turn until one fits and `read` accepts the match. -/
def firstRead {α β : Type} (read : α → Match Field → Except Failure (Option β))
    (text : List Char) : List (Pattern Field × α) → Except Failure (Option (β × List Char))
  | [] => return none
  | (p, info) :: rest =>
    match begins p text with
    | none => firstRead read text rest
    | some m => do
      match ← read info m with
      | some value => return some (value, m.rest)
      | none => firstRead read text rest

/-- Reads a part by the first pattern that fits and that `read` accepts. -/
def firstPart {α : Type} (patterns : List (Pattern Field × α)) (text : List Char)
    (read : α → Match Field → Except Failure (Option Part)) : Except Failure (Option Found) := do
  return (← firstRead read text patterns).map fun (part, rest) => ⟨part, rest⟩

/-- A point as a part. -/
def ofPoint (p : Point) : Part := .content (.point p)

/-- A span as a part. -/
def ofSpan (s : Span) : Part := .content (.span s)

/-- The hour of the day. With a word for the half of the day, hours run from 1 to 12 and the
twelfth is the first of its half. -/
def hourOf (g : Grammar) (m : Match Field) : Option Nat := do
  let hour ← shortNumber? m .hour
  match m.group? .halfDay with
  | none => return hour
  | some marker =>
    if 1 ≤ hour ∧ hour ≤ 12 then
      let first := g.amWords.contains (String.ofList (Text.lower marker))
      return if first then hour % 12 else hour % 12 + 12
    else none

/-- A time of day: "at 9:00", "5 pm". -/
def time (g : Grammar) (text : List Char) : Except Failure (Option Found) :=
  firstPart (g.times.map (·, ())) text fun _ m => return do
    let clock ← TimeOfDay.of? (← hourOf g m) ((shortNumber? m .minute).getD 0 : Nat)
    return ofPoint (.time clock false)

/-- A time of day relative to the hour: "quarter past 5", "10 to 7". -/
def invertedTime (g : Grammar) (text : List Char) : Except Failure (Option Found) :=
  firstPart g.invertedTimes text fun missing m => do
    match hourOf g m with
    | none => return none
    | some hour =>
      if 24 ≤ hour then return none
      let minutes ← match shortNumber? m .minute with
        | some minutes => pure minutes
        | none => lookUp g.minuteWords ((m.group? .minutes).getD [])
      let clock? :=
        if missing then TimeOfDay.of? ((hour + 23) % 24 : Nat) (60 - minutes)
        else TimeOfDay.of? hour minutes
      return clock?.map fun clock => ofPoint (.time clock true)

/-- A leap year, by which a date without a year is checked. -/
def someLeapYear : Nat := 2000

/-- The year of a date, of which two digits mean one of this century. -/
def yearOf (m : Match Field) : Option Nat :=
  match shortNumber? m .year with
  | some year => some year
  | none => (shortNumber? m .shortYear).map (2000 + ·)

/-- A date: "on 24.12.", "1.5.2025". -/
def date (g : Grammar) (text : List Char) : Except Failure (Option Found) :=
  firstPart g.dates text fun looped m => return do
    let day ← shortNumber? m .day
    let month ← shortNumber? m .month
    let year := yearOf m
    if IsDate (year.getD someLeapYear) month day then
      return ofPoint (.date day month (year.map Int.ofNat) looped)
    else none

/-- A day of the month: "on the 5th". -/
def monthDay (g : Grammar) (text : List Char) : Except Failure (Option Found) :=
  firstPart g.monthDays text fun looped m => return do
    let day ← shortNumber? m .day
    if 1 ≤ day ∧ day ≤ 31 then return ofPoint (.monthDay day looped) else none

/-- The number of the name that was found. -/
def nameOf (numbers : List (String × Nat)) (m : Match Field) : Except Failure Nat :=
  lookUp numbers ((m.group? .name).getD [])

/-- A weekday: "on Friday". -/
def weekday (g : Grammar) (text : List Char) : Except Failure (Option Found) :=
  firstPart g.weekdays text fun looped m => do
    return some (ofPoint (.weekday (← nameOf g.weekdayNumbers m) looped))

/-- A month: "in March". -/
def month (g : Grammar) (text : List Char) : Except Failure (Option Found) :=
  firstPart g.months text fun looped m => do
    return some (ofPoint (.month (← nameOf g.monthNumbers m) looped))

/-- A year: "in 2030". A year below zero is none. -/
def year (g : Grammar) (text : List Char) : Except Failure (Option Found) :=
  firstPart [(g.year, ())] text fun _ m => do
    let digits := (m.group? .year).getD []
    let number ← readNumber (digits.filter (· ≠ '-'))
    let inRange := firstYear ≤ number ∧ number ≤ lastYear
    return if digits.head? ≠ some '-' ∧ inRange then some (ofPoint (.year number)) else none

/-- The counts of a span as far as they reach, each unit once, and the text behind them. A
count that is left out is one. -/
def counts (g : Grammar) (item : Pattern Field) (found : List (TimeUnit × Int)) :
    Nat → List Char → Except Failure (List (TimeUnit × Int) × List Char)
  | 0, text => return (found, text)
  | fuel + 1, text =>
    match begins item text with
    | none => return (found, text)
    | some m => do
      let unit ← lookUp g.units ((m.group? .unit).getD [])
      if found.any (·.1 = unit) then return (found, text)
      let count ← match m.group? .count with
        | some digits => readNumber digits
        | none => pure 1
      counts g item (found ++ [(unit, (count : Int))]) fuel m.rest

/-- A span that begins with the given words, if it has any counts. -/
def spanAfter (g : Grammar) (opening item : Pattern Field) (looped : Bool) (text : List Char) :
    Except Failure (Option Found) := do
  match begins opening text with
  | none => return none
  | some m =>
    let (found, rest) ← counts g item [] (TimeUnit.all.length + 1) m.rest
    return if found.isEmpty then none else some ⟨ofSpan (.ofCounts found looped), rest⟩

/-- A span: "every 2 weeks", "in 2 days and 3 hours". -/
def span (g : Grammar) (text : List Char) : Except Failure (Option Found) := do
  let looped ← match g.loopSpan with
    | (some opening, item) => spanAfter g opening item true text
    | (none, _) => pure none
  match looped with
  | some found => return some found
  | none => spanAfter g g.onceSpan.1 g.onceSpan.2 false text

/-- A day near today: "tomorrow". -/
def keyword (g : Grammar) (text : List Char) : Except Failure (Option Found) :=
  firstPart g.dayKeywords text fun days _ => return some (ofSpan (.days days))

/-- A limiter without its limit: "from", "until". -/
def limiter (g : Grammar) (text : List Char) : Except Failure (Option Found) :=
  firstPart g.limiters text fun side _ => return some (.limiter side none)

/-- The recognizer for a kind of part. -/
def ofKind : Kind → Grammar → List Char → Except Failure (Option Found)
  | .time => time
  | .invertedTime => invertedTime
  | .date => date
  | .monthDay => monthDay
  | .weekday => weekday
  | .month => month
  | .year => year
  | .span => span
  | .keyword => keyword
  | .limiter => limiter

/-- All kinds of parts, in the order in which recognizers are tried. -/
def kinds : List Kind :=
  [.time, .invertedTime, .date, .monthDay, .weekday, .month, .year, .span, .keyword, .limiter]

end Recognizer

end TimePhrase
