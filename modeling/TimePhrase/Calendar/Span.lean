import TimePhrase.Calendar.DateTime

/-!
# Units of time and moving by them

The units a span of time is counted in, the sets of units that parts of an expression
talk about, and the instant a number of units later.
-/

namespace TimePhrase

/-- A unit of time, coarse to fine. -/
inductive TimeUnit
  | year
  | month
  | week
  | day
  | hour
  | minute
deriving DecidableEq

namespace TimeUnit

/-- All units, coarse to fine. -/
def all : List TimeUnit := [year, month, week, day, hour, minute]

/-- The place of a unit in `all`. -/
def rank : TimeUnit → Nat
  | year => 0
  | month => 1
  | week => 2
  | day => 3
  | hour => 4
  | minute => 5

/-- The number of a unit in a scope: the unit of rank `r` counts two to the power of `r`. -/
def bit : TimeUnit → Nat
  | year => 1
  | month => 2
  | week => 4
  | day => 8
  | hour => 16
  | minute => 32

/-- The English word for one of the unit. -/
def name : TimeUnit → String
  | year => "year"
  | month => "month"
  | week => "week"
  | day => "day"
  | hour => "hour"
  | minute => "minute"

/-- The unit is a day or longer. -/
def isDayOrCoarser (u : TimeUnit) : Bool := u.rank ≤ day.rank

end TimeUnit

/-- The instant `count` units later. Years and months keep the day of the month, or take the
last day of a month that is too short; all other units have a fixed length. -/
def DateTime.addSpan? (t : DateTime) (unit : TimeUnit) (count : Int) : Option DateTime :=
  match unit with
  | .year => t.addMonths? (12 * count)
  | .month => t.addMonths? count
  | .week => t.addDays? (7 * count)
  | .day => t.addDays? count
  | .hour => t.addMicros? (microsPerHour * count)
  | .minute => t.addMicros? (microsPerMinute * count)

/-- A set of units: those that a part of an expression settles. -/
structure Scope where
  has : TimeUnit → Bool

namespace Scope

/-- The scope that settles nothing. -/
def empty : Scope := ⟨fun _ => false⟩

/-- The scope of exactly the listed units. -/
def of (units : List TimeUnit) : Scope := ⟨fun u => units.contains u⟩

/-- The units of either scope. -/
def union (s t : Scope) : Scope := ⟨fun u => s.has u || t.has u⟩

/-- Two scopes share a unit. -/
def meets (s t : Scope) : Bool := TimeUnit.all.any fun u => s.has u && t.has u

/-- The units of any of the scopes. -/
def sup (scopes : List Scope) : Scope := scopes.foldl union empty

/-- The units of the scope, coarse to fine. -/
def units (s : Scope) : List TimeUnit := TimeUnit.all.filter s.has

/-- A scope as a number: the numbers of its units together. -/
def bits (s : Scope) : Nat := s.units.foldl (fun n u => n + u.bit) 0

/-- The scope of a day of the month, which settles the week along with the day. -/
def monthDay : Scope := of [.week, .day]

/-- The one unit that a scope consists of, if it does. -/
def unit? (s : Scope) : Option TimeUnit :=
  match s.units with
  | [u] => some u
  | _ => none

/-- The name of a scope in messages: units in capitals, a day of the month by its own name. -/
def label (s : Scope) : String :=
  let bits := s.bits
  let name :=
    if bits = 0 then "INVALID"
    else if bits = monthDay.bits then "MONTHDAY"
    else "|".intercalate (s.units.map fun u => u.name.toUpper)
  s!"<Scope.{name}: {bits}>"

end Scope

end TimePhrase
