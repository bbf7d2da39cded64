import TimePhrase.Part
import TimePhrase.Display.Ordinal
import TimePhrase.Calendar.Stamp
import TimePhrase.Text.Digit

/-!
# Describing an expression

The normal English form of a part and of a whole expression. A part whose month or weekday
has no name has no description, and neither has one with a number of too many digits.
-/

namespace TimePhrase

open Text (padInt)

/-- Why something cannot be put into words. -/
inductive Undescribed
  /-- A month or weekday whose number has no name. -/
  | nameless
  /-- A number with more digits than are written. -/
  | numberTooLong (digits : Nat)
deriving DecidableEq

/-- The names of the days of the week, Monday first. -/
def weekdayNames : List String :=
  ["Monday", "Tuesday", "Wednesday", "Thursday", "Friday", "Saturday", "Sunday"]

/-- The names of the months. -/
def monthNames : List String :=
  ["January", "February", "March", "April", "May", "June", "July", "August", "September",
    "October", "November", "December"]

/-- The name with the given number. Numbers of one more round backwards have names too: the
last name stands before the first one, with number zero. -/
def nameOf? (names : List String) (number : Int) : Option String :=
  if -(names.length : Int) < number ∧ number ≤ names.length then
    names[((number - 1) % names.length).toNat]?
  else
    none

/-- The word that opens a description, "every" for what repeats. -/
def lead (looped : Bool) (word : String) : String :=
  if looped then "every" else word

/-- A number in the given form. As many digits are written as are read. -/
def numeral (form : Int → String) (n : Int) : Except Undescribed String :=
  let digits := (Nat.toDigits 10 n.natAbs).length
  if Text.maxDigits < digits then .error (.numberTooLong digits) else .ok (form n)

/-- The name with the given number, which has to have one. -/
def nameOf (names : List String) (number : Int) : Except Undescribed String :=
  match nameOf? names number with
  | some name => .ok name
  | none => .error .nameless

/-- A count with the name of its unit, in the plural unless the count is one. -/
def countText : TimeUnit × Int → String
  | (unit, count) => s!"{count} {unit.name}" ++ if count = 1 then "" else "s"

/-- A day at the given distance from today. -/
def dayText (count : Int) : String :=
  if count = 0 then "today"
  else if count = 1 then "tomorrow"
  else if count = 2 then "day after tomorrow"
  else s!"in {count} days"

def Point.describe : Point → Except Undescribed String
  | time t _ => return s!"at {t.stamp}"
  | date d m y? looped => do
    let dayText ← numeral (padInt 2) d
    let monthText ← numeral (padInt 2) m
    match y? with
    | some y => return s!"on {dayText}.{monthText}." ++ (← numeral (padInt 4) y)
    | none => return lead looped "on" ++ s!" {dayText}.{monthText}."
  | monthDay d looped => return lead looped "on the" ++ " " ++ (← numeral ordinal d)
  | weekday n looped => return lead looped "on" ++ " " ++ (← nameOf weekdayNames n)
  | month n looped => return lead looped "in" ++ " " ++ (← nameOf monthNames n)
  | year n => return "in " ++ (← numeral (padInt 4) n)

def Span.describe : Span → Except Undescribed String
  | counts cs looped => do
    let texts ← cs.mapM fun (unit, count) => numeral (fun n => countText (unit, n)) count
    return lead looped "in" ++ " " ++ " and ".intercalate texts
  | days count => numeral dayText count

def Content.describe : Content → Except Undescribed String
  | point p => p.describe
  | span s => s.describe

mutual

/-- A limiter is described by its word, followed by the expression behind it if that is
not empty. -/
def Part.describe : Part → Except Undescribed String
  | .content c => c.describe
  | .limiter side none => return side.word
  | .limiter side (some []) => return side.word
  | .limiter side (some (part :: parts)) => do
    return side.word ++ " " ++ " ".intercalate ((← part.describe) :: (← describeAll parts))

/-- The descriptions of all parts, if each has one. -/
def describeAll : List Part → Except Undescribed (List String)
  | [] => return []
  | part :: parts => do return (← part.describe) :: (← describeAll parts)

end

namespace Term

/-- The descriptions of the parts, one after the other. -/
def describe (t : Term) : Except Undescribed String :=
  return " ".intercalate (← describeAll t.parts)

end Term

end TimePhrase
