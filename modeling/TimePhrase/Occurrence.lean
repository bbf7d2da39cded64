import TimePhrase.Part.Describe
import TimePhrase.Part.Motion

/-!
# When an expression next occurs

A `Plan` lists the content of a term in the order in which it moves an instant: spans
first, then points from coarse to fine. One pass gives a candidate. While the candidate
lies too early, the finest part that can be advanced by its own cycle without leaving the
other points is advanced, and everything finer is moved onto anew.
-/

namespace TimePhrase

/-- One move of a plan. -/
structure Step where
  content : Content
  fenced : Bool

/-- The moves that a term asks for. -/
structure Plan where
  steps : List Step
  /-- The units that spans have settled. No point may be advanced by one of them. -/
  pinned : Scope
  /-- The time of day that stands in when the term names a day and no time. -/
  defaultTime : Option TimeOfDay

/-- The instants between which occurrences have to lie, the upper one excluded. -/
structure Bounds where
  lower : Option DateTime
  upper : Option DateTime

namespace Bounds

/-- No bound on either side. -/
def none : Bounds := ⟨.none, .none⟩

end Bounds

/-- The points from coarse to fine. Points of the same granularity keep their order. -/
def coarseToFine (points : List Point) : List Point :=
  [0, 1, 2, 3].flatMap fun g => points.filter (·.granularity = g)

namespace Step

/-- A repeating count leaves the days to the points, if there are any. -/
def ofSpan (points : List Point) (s : Span) : Step where
  content := .span s
  fenced := !points.isEmpty && s.isLooped

/-- A weekday stays in the month that another point names. -/
def ofPoint (points : List Point) (p : Point) : Step where
  content := .point p
  fenced := p.kind = .weekday && points.any (·.scope.has .month)

def moveTo? (s : Step) (t : DateTime) : Option DateTime := s.content.moveTo? t s.fenced

end Step

namespace Plan

/-- The plan for a term, which has to have content. -/
def ofTerm (term : Term) (defaultTime : TimeOfDay) : Except Failure Plan := do
  if term.content.isEmpty then
    refuse (.namesNoTime (← named term.describe))
  let spans := term.content.filterMap Content.span?
  let points := term.content.filterMap Content.point?
  let namesDay := points.any fun p => TimeUnit.all.any fun u => u.isDayOrCoarser && p.scope.has u
  let namesTime := term.scope.has .hour || term.scope.has .minute
  return {
    steps := spans.map (Step.ofSpan points) ++ (coarseToFine points).map (Step.ofPoint points)
    pinned := .sup (spans.map Span.scope)
    defaultTime := if namesDay && !namesTime then some defaultTime else none }

/-- Moves an instant by each step in turn. -/
def applySteps : List Step → DateTime → Option DateTime
  | [], t => some t
  | step :: rest, t => do applySteps rest (← step.moveTo? t)

/-- Gives an instant the default time of day, if there is one. -/
def setDefaultTime (plan : Plan) (t : DateTime) : DateTime :=
  match plan.defaultTime with
  | some time => t.atTime time
  | none => t

/-- Moves an instant by the given steps of the plan. -/
def moveBy (plan : Plan) (steps : List Step) (t : DateTime) : Option DateTime :=
  (applySteps steps t).map plan.setDefaultTime

/-- Brings an instant back onto the weekdays of the plan. -/
def realign? (plan : Plan) (t : DateTime) : Option DateTime :=
  plan.steps.foldlM (fun t step => step.content.realign? t) t

/-- Moves an instant by the given steps and brings it back onto the weekdays. -/
def settle? (plan : Plan) (steps : List Step) (t : DateTime) : Option DateTime := do
  plan.realign? (← plan.moveBy steps t)

/-- What keeps the first failing step from leading to an instant of the calendar. -/
def faultOf : List Step → DateTime → CalendarFault
  | [], _ => .badDays 0
  | step :: rest, t =>
    match step.moveTo? t with
    | some moved => faultOf rest moved
    | none => step.content.fault t step.fenced

/-- The instant lies on every point of the plan. -/
def holdsAt (plan : Plan) (t : DateTime) : Bool :=
  plan.steps.all (·.content.holdsAt t)

/-- The step may be advanced: it has a cycle, and a point has one that no span has settled. -/
def canAdvance (plan : Plan) (step : Step) : Except Failure Bool := do
  match ← step.content.cycle? with
  | none => return false
  | some unit =>
    match step.content with
    | .span _ => return true
    | .point _ => return !plan.pinned.has unit

/-- The steps that follow the advance of a step. A point is moved onto again, a span is not
added twice. -/
def stepsAfterAdvance (step : Step) (later : List Step) : List Step :=
  match step.content with
  | .span _ => later
  | .point _ => step :: later

/-- Advances one step of the plan past the candidate, the last one for which that works.
`earlier` holds the steps still to be tried, the last of them first, and `later` the steps
behind them. An advance out of the calendar ends the attempts: coarser ones leave it too. -/
def advanceOne (plan : Plan) (candidate : DateTime) :
    List Step → List Step → Except Failure (Option DateTime)
  | [], _ => return none
  | step :: earlier, later => do
    if !(← plan.canAdvance step) then
      plan.advanceOne candidate earlier (step :: later)
    else
      match step.content.advance candidate with
      | .error .outOfRange => return none
      | .error failure => .error failure
      | .ok advanced =>
        match plan.settle? (stepsAfterAdvance step later) advanced with
        | some moved =>
          if candidate < moved && plan.holdsAt moved then return some moved
          else plan.advanceOne candidate earlier (step :: later)
        | none => plan.advanceOne candidate earlier (step :: later)

/-- The next candidate after the given one. -/
def advance (plan : Plan) (candidate : DateTime) : Except Failure (Option DateTime) :=
  plan.advanceOne candidate plan.steps.reverse []

end Plan

/-- The earliest instant that is wanted, and whether it is excluded itself. -/
structure Threshold where
  start : DateTime
  strict : Bool

namespace Threshold

/-- Occurrences are wanted after `since`, or from the lower bound on if that is later. -/
def of (since : DateTime) (strict : Bool) (lower : Option DateTime) : Threshold :=
  match lower with
  | some bound => if since < bound then ⟨bound, false⟩ else ⟨since, strict⟩
  | none => ⟨since, strict⟩

/-- The instant is late enough. -/
def admits (threshold : Threshold) (t : DateTime) : Bool :=
  if threshold.strict then threshold.start < t else threshold.start ≤ t

end Threshold

/-- The number of advances after which the search for an occurrence is given up. -/
def maxAdvances : Nat := 500

namespace Term

/-- Advances a candidate until it is late enough, with at most `rounds` advances. -/
def advanceUntil (term : Term) (plan : Plan) (since : DateTime) (threshold : Threshold) :
    Nat → DateTime → Except Failure DateTime
  | rounds, candidate => do
    if threshold.admits candidate then return candidate
    match rounds with
    | 0 => refuse (.notFound (← named term.describe) since)
    | rounds + 1 =>
      match ← plan.advance candidate with
      | some moved => term.advanceUntil plan since threshold rounds moved
      | none => refuse (.neverOccurs (← named term.describe) since)

/-- The first occurrence within the bounds, by the given plan, in a search that is given up after
`cap` advances. -/
def searchWithin (term : Term) (cap : Nat) (plan : Plan) (since : DateTime) (strict : Bool)
    (bounds : Bounds) : Except Failure DateTime := do
  let threshold := Threshold.of since strict bounds.lower
  match plan.settle? plan.steps threshold.start with
  | none => refuse (.outsideCalendar (Plan.faultOf plan.steps threshold.start))
  | some first =>
    let candidate ← term.advanceUntil plan since threshold cap first
    match bounds.upper with
    | some upper =>
      if upper ≤ candidate then refuse (.pastBound candidate upper) else return candidate
    | none => return candidate

/-- The first occurrence within the bounds, by the given plan. -/
def searchBy (term : Term) : Plan → DateTime → Bool → Bounds → Except Failure DateTime :=
  term.searchWithin maxAdvances

/-- Moves an instant once by everything that the term says, be that forward or not. -/
def apply (term : Term) (since : DateTime) (defaultTime : TimeOfDay) :
    Except Failure DateTime := do
  let plan ← Plan.ofTerm term defaultTime
  match plan.moveBy plan.steps since with
  | some moved => return moved
  | none => refuse (.outsideCalendar (Plan.faultOf plan.steps since))

/-- A search that ends without a future occurrence falls back on what the term says. -/
def orApply (term : Term) (since : DateTime) (defaultTime : TimeOfDay) :
    Except Failure DateTime → Except Failure DateTime
  | .error (.expression error) =>
    if error.kind = .noFutureOccurrence then term.apply since defaultTime
    else refuse error
  | result => result

theorem sizeOf_limit?_lt {term limit : Term} {side : Side} (h : term.limit? side = some limit) :
    sizeOf limit < sizeOf term := by
  cases term with
  | mk parts =>
    cases hfound : parts.find? (fun p => p.side? = some side) with
    | none => simp [limit?, limiter?, hfound] at h
    | some part =>
      have hmem := List.sizeOf_lt_of_mem (List.mem_of_find?_eq_some hfound)
      cases part with
      | content c => simp [limit?, limiter?, hfound] at h
      | limiter s inner =>
        cases inner with
        | none => simp [limit?, limiter?, hfound] at h
        | some limitParts =>
          simp only [limit?, limiter?, hfound, Option.map_some, Option.some.injEq] at h
          subst h
          simp only [Part.limiter.sizeOf_spec, Option.some.sizeOf_spec, Term.mk.sizeOf_spec] at *
          omega

/-- The instants that the limits of a term stand for, when every search is given up after `cap`
advances. A limit in the past is still a limit. -/
def boundsWithin (term : Term) (cap : Nat) (since : DateTime) (defaultTime : TimeOfDay) :
    Except Failure Bounds := do
  let bound (side : Side) : Except Failure (Option DateTime) :=
    match h : term.limit? side with
    | none => return none
    | some limit =>
      have := sizeOf_limit?_lt h
      some <$> limit.orApply since defaultTime (do
        let plan ← Plan.ofTerm limit defaultTime
        limit.searchWithin cap plan since false (← limit.boundsWithin cap since defaultTime))
  return ⟨← bound .lower, ← bound .upper⟩
termination_by sizeOf term

/-- The instants that the limits of a term stand for. -/
def bounds (term : Term) : DateTime → TimeOfDay → Except Failure Bounds :=
  term.boundsWithin maxAdvances

/-- The first occurrence within the given bounds, or the term's own limits if none are given, when
every search is given up after `cap` advances. -/
def nextWithin (term : Term) (cap : Nat) (since : DateTime) (strict : Bool)
    (defaultTime : TimeOfDay) (bounds : Option Bounds) : Except Failure DateTime := do
  let plan ← Plan.ofTerm term defaultTime
  let limits ← match bounds with
    | some given => pure given
    | none => term.boundsWithin cap since defaultTime
  term.searchWithin cap plan since strict limits

/-- The first occurrence within the given bounds, which are the term's own limits if none are
given. A strict search excludes `since` itself. -/
def next (term : Term) (since : DateTime) (strict : Bool) (defaultTime : TimeOfDay)
    (bounds : Option Bounds) : Except Failure DateTime :=
  term.nextWithin maxAdvances since strict defaultTime bounds

/-- The instant that a term stands for as a limit. -/
def instant (term : Term) (since : DateTime) (defaultTime : TimeOfDay) :
    Except Failure DateTime :=
  term.orApply since defaultTime (term.next since false defaultTime none)

end Term

end TimePhrase
