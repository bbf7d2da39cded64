import TimePhrase.Error

/-!
# Moving onto a part

`moveTo?` moves an instant onto a point, or by a span. `advance` moves an instant one cycle
of the part further, and `realign?` brings one back onto the part that a finer advance has
moved off it. `holdsAt` says that an instant lies on the part. An instant outside the
calendar is `none`, or the failure `outOfRange`.

A part is `fenced` when a coarser part has settled the period that it must stay in: a
fenced weekday stays in its month, and a fenced span leaves all units of a day or more to
the points.
-/

namespace TimePhrase

namespace Point

/-- The weekday of the week of an instant. Fenced, it is the weekday of the week before or
after when that is what it takes to stay in the month. -/
def toWeekday? (t : DateTime) (weekday : Int) (fenced : Bool) : Option DateTime := do
  let moved ← t.addDays? (weekday - t.weekday)
  if fenced then
    if moved.date.monthIndex < t.date.monthIndex then moved.addDays? 7
    else if t.date.monthIndex < moved.date.monthIndex then moved.addDays? (-7)
    else return moved
  else
    return moved

/-- Moves an instant onto the point within the unit above it. A month starts with its first
day and a year with its first month, and days that a month lacks become its last day. -/
def moveTo? (p : Point) (t : DateTime) (fenced : Bool) : Option DateTime :=
  match p with
  | time clock _ => some (t.atTime clock)
  | date d m y _ => (Date.ofClamped? (y.getD t.date.year) m d).map t.onDate
  | monthDay d _ => (Date.ofClamped? t.date.year t.date.month d).map t.onDate
  | weekday n _ => toWeekday? t n fenced
  | month m _ => (Date.of? t.date.year m 1).map t.onDate
  | year y => (Date.of? y 1 1).map t.onDate

/-- Moves an instant by one cycle of the point, and onto the point again where months and
years are not equally long. -/
def advance (p : Point) (t : DateTime) : Except Failure DateTime :=
  let moved? := match p with
    | time .. => t.addDays? 1
    | date .. | month .. => do p.moveTo? (← t.addMonths? 12) false
    | monthDay .. => do p.moveTo? (← t.addMonths? 1) false
    | weekday .. => t.addDays? 7
    | year .. => none
  match p, moved? with
  | year _, _ => .error (.noCycle .year)
  | _, some moved => .ok moved
  | _, none => .error .outOfRange

/-- Brings an instant back onto a weekday, within its month. -/
def realign? (p : Point) (t : DateTime) : Option DateTime :=
  match p with
  | weekday n _ => if (t.weekday : Int) = n then some t else toWeekday? t n true
  | _ => some t

/-- The instant lies on the point. -/
def holdsAt (p : Point) (t : DateTime) : Bool :=
  match p with
  | time clock _ => t.timeOfDay = clock
  | date d m y _ =>
    (y.all fun y => (t.date.year : Int) = y) && (t.date.month : Int) = m &&
      (t.date.day : Int) = min d (daysInMonth t.date.year m.toNat)
  | monthDay d _ => (t.date.day : Int) = min d (daysInMonth t.date.year t.date.month)
  | weekday n _ => (t.weekday : Int) = n
  | month m _ => (t.date.month : Int) = m
  | year y => (t.date.year : Int) = y

end Point

namespace Span

/-- Moves an instant by each count in turn. -/
def addCounts? (t : DateTime) : List (TimeUnit × Int) → Option DateTime
  | [] => some t
  | (unit, count) :: rest => do addCounts? (← t.addSpan? unit count) rest

/-- Moves an instant by the span. -/
def moveTo? (s : Span) (t : DateTime) (fenced : Bool) : Option DateTime :=
  match s with
  | counts cs _ => addCounts? t (if fenced then cs.filter (!·.1.isDayOrCoarser) else cs)
  | days count => t.addDays? count

/-- What keeps the first count that leads out of the calendar from staying in it. -/
def countsFault (t : DateTime) : List (TimeUnit × Int) → CalendarFault
  | [] => .badDays 0
  | (unit, count) :: rest =>
    match t.addSpan? unit count with
    | some moved => countsFault moved rest
    | none => t.spanFault unit count

/-- What keeps a move by the span from staying in the calendar. -/
def fault (s : Span) (t : DateTime) (fenced : Bool) : CalendarFault :=
  match s with
  | counts cs _ => countsFault t (if fenced then cs.filter (!·.1.isDayOrCoarser) else cs)
  | days count => .badDays count

/-- Moves an instant by the whole of a repeating span. -/
def advance (s : Span) (t : DateTime) : Except Failure DateTime :=
  match s with
  | counts cs true =>
    match addCounts? t cs with
    | some moved => .ok moved
    | none => .error .outOfRange
  | counts _ false => .error .spanWithoutRepetition
  | days _ => .error (.noCycle .keyword)

/-- The coarsest unit of a repeating span, by which it recurs. -/
def cycle? (s : Span) : Except Failure (Option TimeUnit) :=
  match s with
  | counts [] true => .error .emptySpan
  | counts ((unit, _) :: _) true => .ok (some unit)
  | _ => .ok none

end Span

namespace Content

@[inherit_doc Point.moveTo?]
def moveTo? (c : Content) (t : DateTime) (fenced : Bool) : Option DateTime :=
  match c with
  | point p => p.moveTo? t fenced
  | span s => s.moveTo? t fenced

/-- What keeps a move onto the part from staying in the calendar. A point of a valid
expression leaves it by its last days only. -/
def fault (c : Content) (t : DateTime) (fenced : Bool) : CalendarFault :=
  match c with
  | point _ => .badDays 0
  | span s => s.fault t fenced

@[inherit_doc Point.advance]
def advance (c : Content) (t : DateTime) : Except Failure DateTime :=
  match c with
  | point p => p.advance t
  | span s => s.advance t

@[inherit_doc Point.realign?]
def realign? (c : Content) (t : DateTime) : Option DateTime :=
  match c with
  | point p => p.realign? t
  | span _ => some t

/-- The instant lies on the part. A span is nothing that an instant could lie on. -/
def holdsAt (c : Content) (t : DateTime) : Bool :=
  match c with
  | point p => p.holdsAt t
  | span _ => true

/-- The unit by which a part recurs, if it does. -/
def cycle? (c : Content) : Except Failure (Option TimeUnit) :=
  match c with
  | point p => .ok p.cycle?
  | span s => s.cycle?

end Content

namespace Part

/-- Moves an instant onto a part. A limiter leaves it where it is. -/
def moveTo? (p : Part) (t : DateTime) (fenced : Bool) : Option DateTime :=
  match p with
  | content c => c.moveTo? t fenced
  | limiter .. => some t

@[inherit_doc Point.advance]
def advance (p : Part) (t : DateTime) : Except Failure DateTime :=
  match p with
  | content c => c.advance t
  | limiter .. => .error (.noCycle .limiter)

@[inherit_doc Point.realign?]
def realign? (p : Part) (t : DateTime) : Option DateTime :=
  match p with
  | content c => c.realign? t
  | limiter .. => some t

@[inherit_doc Content.holdsAt]
def holdsAt (p : Part) (t : DateTime) : Bool :=
  match p with
  | content c => c.holdsAt t
  | limiter .. => true

@[inherit_doc Content.cycle?]
def cycle? (p : Part) : Except Failure (Option TimeUnit) :=
  match p with
  | content c => c.cycle?
  | limiter .. => .ok none

end Part

end TimePhrase
