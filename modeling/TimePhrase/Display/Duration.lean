/-!
# Durations in words

A number of seconds as weeks, days, hours and minutes. What is left of a minute is dropped.
-/

namespace TimePhrase

/-- The units of durations in seconds, from the longest. -/
def durationUnits : List (String × Nat) :=
  [("week", 604800), ("day", 86400), ("hour", 3600), ("minute", 60)]

/-- How often each unit fits into what the longer ones leave of the seconds. Units that do not
fit are left out. -/
def splitSeconds : List (String × Nat) → Nat → List (String × Nat)
  | [], _ => []
  | (name, length) :: units, seconds =>
    let others := splitSeconds units (seconds % length)
    if seconds / length = 0 then others else (name, seconds / length) :: others

/-- A duration in words. The short form keeps the two longest units. Negative durations have a
minus sign before each number. -/
def durationInWords (seconds : Int) (short : Bool) : String :=
  let sign := if seconds < 0 then "- " else ""
  let words := (splitSeconds durationUnits seconds.natAbs).map fun (name, count) =>
    sign ++ toString count ++ " " ++ name ++ if count = 1 then "" else "s"
  if words.isEmpty then "zero minutes"
  else " ".intercalate (if short then words.take 2 else words)

end TimePhrase
