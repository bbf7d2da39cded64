import TimePhrase.Calendar.Span

/-!
# Why an instant lies outside the calendar

The calendar has the years 1 to 9999. A move out of it fails with the first thing that does
not fit: the year that a move by months or years leads to, or the days that a move of fixed
length covers. Numbers beyond the machine's own are reported without their value.
-/

namespace TimePhrase

/-- What does not fit into the calendar. -/
inductive CalendarFault
  | badYear (number : Int)
  /-- A move by so many days. -/
  | badDays (count : Int)
  /-- A count of months beyond all floating point numbers. -/
  | badMonths
deriving DecidableEq

namespace CalendarFault

/-- The first whole number that is too large for a floating point number. -/
def floatLimit : Nat := 1 <<< 1024 - 1 <<< 970

/-- The number fits into a machine word with a sign and so many further bits. -/
def fitsWord (bits : Nat) (n : Int) : Bool :=
  -((1 <<< bits : Nat) : Int) ≤ n && n < ((1 <<< bits : Nat) : Int)

def message : CalendarFault → String
  | badYear n =>
    if !fitsWord 63 n then "Python int too large to convert to C long"
    else if fitsWord 31 n then s!"year {n} is out of range"
    else if 0 < n then "signed integer is greater than maximum"
    else "signed integer is less than minimum"
  | badDays n =>
    if !fitsWord 31 n then "Python int too large to convert to C int"
    else if 999999999 < n.natAbs then s!"days={n}; must have magnitude <= 999999999"
    else "date value out of range"
  | badMonths => "int too large to convert to float"

end CalendarFault

/-- What keeps an instant so many units later from lying in the calendar. -/
def DateTime.spanFault (t : DateTime) (unit : TimeUnit) (count : Int) : CalendarFault :=
  match unit with
  | .year => .badYear (t.date.year + count)
  | .month =>
    if CalendarFault.floatLimit ≤ count.natAbs then .badMonths
    else .badYear (t.date.year + (t.date.month - 1 + count) / 12)
  | .week => .badDays (7 * count)
  | .day => .badDays count
  | .hour => .badDays (count / 24)
  | .minute => .badDays (count / 1440)

end TimePhrase
