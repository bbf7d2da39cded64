import TimePhrase.Calendar.Span

/-!
# Parts of a time expression

An expression is a sequence of parts. A `Point` names a point in time (a time of day, a
date, a weekday, …), a `Span` an amount of time, and a limiter ("from", "until") bounds a
repetition by an expression of its own. A `Term` is such a sequence; it settles the units
of time in its `Scope`.

The numbers in parts are not restricted here: a part may name the thirteenth month, and
moving onto it fails.
-/

namespace TimePhrase

/-- A part that names a point in time. -/
inductive Point
  /-- A time of day, given directly or relative to the hour ("quarter past 5"). -/
  | time (time : TimeOfDay) (inverted : Bool)
  | date (day month : Int) (year : Option Int) (looped : Bool)
  | monthDay (day : Int) (looped : Bool)
  /-- A day of the week, Monday being 1. -/
  | weekday (weekday : Int) (looped : Bool)
  | month (month : Int) (looped : Bool)
  | year (year : Int)
deriving DecidableEq

/-- A part that names an amount of time. -/
inductive Span
  /-- Counts of units, coarse to fine. -/
  | counts (counts : List (TimeUnit × Int)) (looped : Bool)
  /-- A day at the given distance from today. -/
  | days (count : Int)
deriving DecidableEq

/-- A part that says something about when. -/
inductive Content
  | point (point : Point)
  | span (span : Span)
deriving DecidableEq

/-- The two ends that a repetition can be limited at. -/
inductive Side
  | lower
  | upper
deriving DecidableEq

/-- A part of an expression: content, or a limiter with the expression that it limits by. -/
inductive Part
  | content (content : Content)
  | limiter (side : Side) (limit : Option (List Part))

/-- An expression that has been read: its parts in the order of the text. -/
structure Term where
  parts : List Part

/-- What a part of an expression is, as far as the user is told. -/
inductive Kind
  | time
  | invertedTime
  | date
  | monthDay
  | weekday
  | month
  | year
  | span
  | keyword
  | limiter
deriving DecidableEq

namespace Kind

/-- The name of a kind of part. -/
def name : Kind → String
  | time => "time"
  | invertedTime => "inverted time"
  | date => "date"
  | monthDay => "month day"
  | weekday => "weekday"
  | month => "month"
  | year => "year"
  | span => "sequence"
  | keyword => "keyword"
  | limiter => "limiter"

end Kind

namespace Side

/-- The English word that opens a limit. -/
def word : Side → String
  | lower => "from"
  | upper => "until"

end Side

namespace Point

def kind : Point → Kind
  | time _ false => .time
  | time _ true => .invertedTime
  | date .. => .date
  | monthDay .. => .monthDay
  | weekday .. => .weekday
  | month .. => .month
  | year .. => .year

/-- The part asks for every such point. A date with a year cannot repeat. -/
def isLooped : Point → Bool
  | date _ _ y looped => y.isNone && looped
  | monthDay _ looped | weekday _ looped | month _ looped => looped
  | time .. | year .. => false

/-- The part names one year, so that there is only one such point. -/
def isAbsolute : Point → Bool
  | date _ _ y _ => y.isSome
  | year .. => true
  | _ => false

/-- The units that the part settles. -/
def scope : Point → Scope
  | time .. => .of [.hour, .minute]
  | date _ _ none _ => .of [.month, .week, .day]
  | date _ _ (some _) _ => .of [.year, .month, .week, .day]
  | monthDay .. => .monthDay
  | weekday .. => .of [.day]
  | month .. => .of [.month]
  | year .. => .of [.year]

/-- The unit by which the point recurs, if it does. -/
def cycle? : Point → Option TimeUnit
  | time .. => some .day
  | date _ _ none _ => some .year
  | date _ _ (some _) _ => none
  | monthDay .. => some .month
  | weekday .. => some .week
  | month .. => some .year
  | year .. => none

/-- How fine the part is: points are moved onto from coarse to fine. -/
def granularity (p : Point) : Nat :=
  if p.scope.has .year then 0
  else if p.scope.has .month then 1
  else if p.scope.has .week || p.scope.has .day then 2
  else 3

end Point

namespace Span

/-- A span from counts in any order. Counts of the same unit keep their order. -/
def ofCounts (counts : List (TimeUnit × Int)) (looped : Bool) : Span :=
  .counts (TimeUnit.all.flatMap fun u => counts.filter (·.1 = u)) looped

def kind : Span → Kind
  | counts .. => .span
  | days .. => .keyword

/-- The span is to be repeated. -/
def isLooped : Span → Bool
  | counts _ looped => looped
  | days .. => false

/-- The units that the part settles. -/
def scope : Span → Scope
  | counts cs _ => .of (cs.map (·.1))
  | days .. => .of [.day]

end Span

namespace Content

def kind : Content → Kind
  | point p => p.kind
  | span s => s.kind

@[inherit_doc Point.isLooped]
def isLooped : Content → Bool
  | point p => p.isLooped
  | span s => s.isLooped

@[inherit_doc Point.isAbsolute]
def isAbsolute : Content → Bool
  | point p => p.isAbsolute
  | span _ => false

@[inherit_doc Point.scope]
def scope : Content → Scope
  | point p => p.scope
  | span s => s.scope

def point? : Content → Option Point
  | point p => some p
  | span _ => none

def span? : Content → Option Span
  | point _ => none
  | span s => some s

end Content

namespace Part

def kind : Part → Kind
  | content c => c.kind
  | limiter .. => .limiter

def content? : Part → Option Content
  | content c => some c
  | limiter .. => none

/-- The side of a limiter. -/
def side? : Part → Option Side
  | content _ => none
  | limiter side _ => some side

@[inherit_doc Point.isLooped]
def isLooped : Part → Bool
  | content c => c.isLooped
  | limiter .. => false

def isLimiter : Part → Bool
  | content _ => false
  | limiter .. => true

end Part

/-- The content among the parts, in order. -/
def contents (parts : List Part) : List Content :=
  parts.filterMap Part.content?

namespace Term

/-- The parts of a term other than limiters. -/
def content (t : Term) : List Content := contents t.parts

/-- The units that the content of a term settles. -/
def scope (t : Term) : Scope := .sup (t.content.map Content.scope)

/-- Some part of the term is to be repeated. -/
def isLooped (t : Term) : Bool := t.content.any Content.isLooped

/-- The term names a date that occurs once. -/
def isAbsolute (t : Term) : Bool := t.content.any Content.isAbsolute

/-- The first limiter on the given side. -/
def limiter? (t : Term) (side : Side) : Option Part :=
  t.parts.find? fun p => p.side? = some side

/-- The expression behind the first limiter on the given side. -/
def limit? (t : Term) (side : Side) : Option Term :=
  match t.limiter? side with
  | some (.limiter _ limit) => limit.map Term.mk
  | _ => none

def kinds (t : Term) : List Kind := t.parts.map Part.kind

end Term

end TimePhrase
