import TimePhrase.Calendar.Stamp
import TimePhrase.Text.Digit

/-!
# Times of day in settings

A time of day in numbers, such as `07:15`, `0715` or `07:15:30.5+01:00`: hours, minutes,
seconds and a fraction, each but the first of which may be missing, and an optional distance
from universal time.
-/

namespace TimePhrase

/-- A time of day with its distance from universal time in microseconds, if that is given. -/
structure ClockTime where
  hour : Fin 24
  minute : Fin 60
  second : Fin 60
  micro : Fin 1000000
  offset : Option Int
deriving DecidableEq

namespace ClockTime

/-- The numbers of a time before they are known to be one. -/
structure Numbers where
  hour : Nat
  minute : Nat
  second : Nat
  micro : Nat

/-- The value of a digit from 0 to 9. -/
def asciiDigit? (c : Char) : Option Nat :=
  if c.isDigit then some (c.toNat - 48) else none

/-- The number made of the first digits of a text, and the rest of the text. -/
def takeDigits? : Nat → Nat → List Char → Option (Nat × List Char)
  | 0, n, cs => some (n, cs)
  | _ + 1, _, [] => none
  | count + 1, n, c :: cs => do takeDigits? count (10 * n + (← asciiDigit? c)) cs

/-- The microseconds of a fraction, whose first six digits count, and whether text remains. -/
def fraction? (cs : List Char) : Option (Nat × Bool) := do
  let places := min cs.length 6
  let (n, rest) ← takeDigits? places 0 cs
  return (n * Nat.pow 10 (6 - places), !(rest.dropWhile Char.isDigit).isEmpty)

/-- Reads the numbers of a time from a text that ends where a distance from universal time
begins, and tells whether text remains. A point or comma begins the fraction. Colons stand
between all numbers or between none; a last one, like any single byte, counts as remaining
text. `place` counts the numbers that have been read, and `colons` tells whether a colon
follows the first one. -/
def numbers? (place : Nat) (colons : Bool) (read : List Nat) :
    List Char → Option (List Nat × Nat × Bool)
  | a :: b :: cs => do
    let n := 10 * (← asciiDigit? a) + (← asciiDigit? b)
    let read := read ++ [n]
    match cs with
    | [] => return (read, 0, false)
    | [c] => if c.utf8Size = 1 then return (read, 0, true) else none
    | c :: rest =>
      let colons := if place = 0 then c = ':' else colons
      if c = '.' ∨ c = ',' then
        let (micro, remains) ← fraction? rest
        return (read, micro, remains)
      else if colons ∧ c ≠ ':' then none
      else if place = 2 then
        let (micro, remains) ← fraction? (if colons then rest else c :: rest)
        return (read, micro, remains)
      else if colons then numbers? (place + 1) true read rest
      else numbers? (place + 1) false read (c :: rest)
  | _ => none

/-- The numbers of a time, missing ones being zero. -/
def readNumbers? (cs : List Char) : Option (Numbers × Bool) := do
  let (read, micro, remains) ← numbers? 0 true [] cs
  return (⟨read.getD 0 0, read.getD 1 0, read.getD 2 0, micro⟩, remains)

/-- The microseconds that numbers of a time stand for. -/
def Numbers.toMicros (n : Numbers) : Nat :=
  ((n.hour * 60 + n.minute) * 60 + n.second) * 1000000 + n.micro

/-- A distance from universal time, which is less than a day. One of less than a second counts
as none. -/
def offset? (negative : Bool) (cs : List Char) : Option Int := do
  let (n, remains) ← readNumbers? cs
  if remains then none
  let micros : Int := n.toMicros
  if micros < 1000000 then return 0
  if micros < 24 * 3600 * 1000000 then return if negative then -micros else micros
  none

/-- The character begins a distance from universal time. -/
def beginsOffset (c : Char) : Bool := c = '+' || c = '-' || c = 'Z'

/-- Reads a time of day. The letter `T` may stand in front, and `Z` is no distance at all. -/
def read? (text : String) : Option ClockTime := do
  let cs := match text.toList with
    | 'T' :: cs => cs
    | cs => cs
  let (n, remains) ← readNumbers? (cs.takeWhile (!beginsOffset ·))
  let offset ← match cs.dropWhile (!beginsOffset ·) with
    | [] => if remains then none else some none
    | ['Z'] => some (some 0)
    | 'Z' :: _ => none
    | sign :: rest => some <$> offset? (sign = '-') rest
  if h : (n.hour < 24 ∧ n.minute < 60) ∧ n.second < 60 ∧ n.micro < 1000000 then
    return ⟨⟨n.hour, h.1.1⟩, ⟨n.minute, h.1.2⟩, ⟨n.second, h.2.1⟩, ⟨n.micro, h.2.2⟩, offset⟩
  else none

open Text (padNat)

/-- A distance from universal time in writing, with no more numbers than it needs. -/
def offsetStamp (offset : Int) : String :=
  let micros := offset.natAbs
  let seconds := micros / 1000000
  let clock := s!"{padNat 2 (seconds / 3600)}:{padNat 2 (seconds / 60 % 60)}"
  let second := if micros % 60000000 = 0 then "" else s!":{padNat 2 (seconds % 60)}"
  let fraction := if micros % 1000000 = 0 then "" else s!".{padNat 6 (micros % 1000000)}"
  (if offset < 0 then "-" else "+") ++ clock ++ second ++ fraction

/-- A time of day as `HH:MM:SS`, with a fraction and a distance if it has them. -/
def stamp (t : ClockTime) : String :=
  let clock := s!"{padNat 2 t.hour}:{padNat 2 t.minute}:{padNat 2 t.second}"
  let fraction := if t.micro.val = 0 then "" else s!".{padNat 6 t.micro}"
  clock ++ fraction ++ t.offset.elim "" offsetStamp

/-- The hour and the minute, which are all that expressions need. -/
def timeOfDay (t : ClockTime) : TimeOfDay := ⟨t.hour, t.minute⟩

end ClockTime

end TimePhrase
