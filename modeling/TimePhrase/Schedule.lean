import TimePhrase.Validity

/-!
# Schedules

What is kept of an expression once it has been asked for: a single instant, or a repetition
within fixed bounds.
-/

namespace TimePhrase

/-- An expression that occurs once, at an instant found when the schedule was made. -/
structure OneTime where
  term : Term
  time : DateTime

/-- An expression that repeats, within bounds found when the schedule was made. -/
structure Repeated where
  term : Term
  defaultTime : TimeOfDay
  bounds : Bounds

/-- A schedule of either sort. -/
inductive Schedule
  | once (schedule : OneTime)
  | repeated (schedule : Repeated)

namespace OneTime

/-- Finds the single occurrence of a term. It may be the instant `since` itself. -/
def ofTerm (term : Term) (since : DateTime) (defaultTime : TimeOfDay) :
    Except Failure OneTime := do
  return ⟨term, ← term.next since false defaultTime (some .none)⟩

/-- The single occurrence, unless it has passed. -/
def next (s : OneTime) (since : DateTime) : Except Failure DateTime := do
  if s.time < since then
    refuse (.alreadyPast (← named s.term.describe) s.time)
  return s.time

end OneTime

namespace Repeated

/-- Settles the limits of a term. -/
def ofTerm (term : Term) (since : DateTime) (defaultTime : TimeOfDay) :
    Except Failure Repeated := do
  return ⟨term, defaultTime, ← term.bounds since defaultTime⟩

/-- The first occurrence after `since`. -/
def next (s : Repeated) (since : DateTime) : Except Failure DateTime :=
  s.term.next since true s.defaultTime (some s.bounds)

/-- Up to `count` occurrences, each after the one before. The upper bound ends the list. -/
def occurrences (s : Repeated) (since : DateTime) : Nat → Except Failure (List DateTime)
  | 0 => return []
  | count + 1 =>
    match s.next since with
    | .ok time => do return time :: (← s.occurrences time count)
    | .error (.expression (.pastBound _ _)) => return []
    | .error failure => .error failure

end Repeated

namespace Schedule

/-- The schedule for a term. A repetition has to occur at least once. -/
def ofTerm (term : Term) (since : DateTime) (defaultTime : TimeOfDay) :
    Except Failure Schedule := do
  if term.isLooped then
    let schedule ← Repeated.ofTerm term since defaultTime
    let _ ← schedule.next since
    return .repeated schedule
  else
    return .once (← OneTime.ofTerm term since defaultTime)

def term : Schedule → Term
  | once s => s.term
  | repeated s => s.term

/-- The first occurrence from `since` on, or after it when the schedule repeats. -/
def next (schedule : Schedule) (since : DateTime) : Except Failure DateTime :=
  match schedule with
  | once s => s.next since
  | repeated s => s.next since

/-- The schedule as named texts: its sort, the expression, and the instants that were settled. A
bound that is not set has no text. -/
def toDict (schedule : Schedule) : Except Failure (List (String × Option String)) := do
  let expression ← named schedule.term.describe
  match schedule with
  | once s =>
    return [("kind", some "once"), ("expression", some expression), ("when", some s.time.stamp)]
  | repeated s =>
    return [("kind", some "repeated"), ("expression", some expression),
      ("from", s.bounds.lower.map DateTime.stamp), ("until", s.bounds.upper.map DateTime.stamp)]

end Schedule

/-- The next instant that a term names, whatever its limits say. -/
def Term.snooze (term : Term) (since : DateTime) (defaultTime : TimeOfDay) :
    Except Failure DateTime :=
  term.next since term.isLooped defaultTime (some .none)

end TimePhrase
