import TimePhrase.Calendar.Date
import TimePhrase.Text.Digit
import TimePhrase.Toml.Text

/-!
# Numbers, dates and times of a document

Readers of the values that begin with a digit or a sign. A reader that does not apply answers
with `none`.
-/

namespace TimePhrase.Toml

/-- Takes digits off a text that follow another digit. Single underscores may stand between. -/
def takeMoreDigits (isDigit : Char → Bool) : List Char → List Char × List Char
  | [] => ([], [])
  | '_' :: c :: rest =>
    if isDigit c then
      let (digits, rest) := takeMoreDigits isDigit rest
      (c :: digits, rest)
    else ([], '_' :: c :: rest)
  | c :: rest =>
    if isDigit c then
      let (digits, rest) := takeMoreDigits isDigit rest
      (c :: digits, rest)
    else ([], c :: rest)

/-- Takes digits off a text. -/
def takeDigits (isDigit : Char → Bool) : List Char → List Char × List Char
  | [] => ([], [])
  | c :: rest =>
    if isDigit c then
      let (digits, rest) := takeMoreDigits isDigit rest
      (c :: digits, rest)
    else ([], c :: rest)

/-- The digits of a base, as a letter behind a zero names it. -/
def radix? (c : Char) : Option (Char → Bool) :=
  if c = 'x' then some fun d => d.isDigit || ('a' ≤ d && d ≤ 'f') || ('A' ≤ d && d ≤ 'F')
  else if c = 'o' then some fun d => '0' ≤ d && d ≤ '7'
  else if c = 'b' then some fun d => d = '0' || d = '1'
  else none

/-- The value of digits in the base that a letter names. -/
def radixValue (c : Char) (digits : List Char) : Nat :=
  let base := if c = 'x' then 16 else if c = 'o' then 8 else 2
  digits.foldl (fun n d => base * n + (hexValue? [d]).getD 0) 0

/-- Takes a number in base 16, 8 or 2 off a text. -/
def takeRadix? : List Char → Option (Value × List Char)
  | '0' :: c :: rest => do
    let (digits, rest) := takeDigits (← radix? c) rest
    if digits.isEmpty then none else some (.integer (radixValue c digits), rest)
  | _ => none

/-- Whether a minus sign stands in front, and what follows a sign of either sort. -/
def takeSign : List Char → Bool × List Char
  | '-' :: rest => (true, rest)
  | '+' :: rest => (false, rest)
  | cs => (false, cs)

/-- Takes the whole part of a decimal number off a text: a zero, or digits that do not begin
with one. -/
def takeWhole? : List Char → Option (List Char × List Char)
  | '0' :: rest => some (['0'], rest)
  | c :: rest => if c.isDigit then some (takeDigits Char.isDigit (c :: rest)) else none
  | [] => none

/-- Takes a point and the digits behind it off a text. -/
def takeFraction? : List Char → Option (List Char × List Char)
  | '.' :: rest =>
    match takeDigits Char.isDigit rest with
    | ([], _) => none
    | found => some found
  | _ => none

/-- Takes an exponent off a text. -/
def takeExponent? : List Char → Option (Int × List Char)
  | c :: rest =>
    if c = 'e' ∨ c = 'E' then
      let (negative, rest) := takeSign rest
      match takeDigits Char.isDigit rest with
      | ([], _) => none
      | (digits, rest) =>
        let n : Int := Text.digitsValue digits
        some (if negative then -n else n, rest)
    else none
  | [] => none

/-- The floating point number nearest to `digits · 10 ^ exponent`. Numbers far out of range are
zero or infinite. -/
def floatOf (negative : Bool) (digits : List Char) (exponent : Int) : Float :=
  let n := Text.digitsValue digits
  let size : Int := digits.length + exponent
  let x :=
    if n = 0 ∨ size < -400 then 0
    else if 400 + digits.length < size then 1 / 0
    else if exponent < 0 then Float.ofScientific n true exponent.natAbs
    else Float.ofScientific n false exponent.natAbs
  if negative then -x else x

/-- Takes a decimal number off a text. -/
def takeDecimal? (cs : List Char) : Option (Except Fault (Value × List Char)) := do
  let (negative, rest) := takeSign cs
  let (whole, rest) ← takeWhole? rest
  let fraction? := takeFraction? rest
  let (fraction, rest) := fraction?.getD ([], rest)
  let exponent? := takeExponent? rest
  let (exponent, rest) := exponent?.getD (0, rest)
  if fraction?.isSome || exponent?.isSome then
    let value := floatOf negative (whole ++ fraction) (exponent - fraction.length)
    return .ok (.float value, rest)
  else if Text.maxDigits < whole.length then
    return .error (.numberTooLong whole.length)
  else
    let n : Int := Text.digitsValue whole
    return .ok (.integer (if negative then -n else n), rest)

/-- Takes one of the words for numbers that have no digits off a text. -/
def takeSpecial? (cs : List Char) : Option (Value × List Char) :=
  let (negative, rest) := takeSign cs
  match rest with
  | 'i' :: 'n' :: 'f' :: rest => some (.float (if negative then -1 / 0 else 1 / 0), rest)
  | 'n' :: 'a' :: 'n' :: rest => some (.float (0 / 0), rest)
  | _ => none

/-- Takes a number of two digits between the given ones off a text. -/
def takeTwo? (low high : Nat) : List Char → Option (Nat × List Char)
  | a :: b :: rest =>
    let n := Text.digitsValue [a, b]
    if a.isDigit && b.isDigit && low ≤ n && n ≤ high then some (n, rest) else none
  | _ => none

/-- Takes a character off a text. -/
def takeChar? (c : Char) : List Char → Option (List Char)
  | d :: rest => if d = c then some rest else none
  | [] => none

/-- Skips a time of day with seconds. -/
def skipTime? (cs : List Char) : Option (List Char) := do
  let (_, rest) ← takeTwo? 0 23 cs
  let (_, rest) ← takeTwo? 0 59 (← takeChar? ':' rest)
  let (_, rest) ← takeTwo? 0 59 (← takeChar? ':' rest)
  match rest with
  | '.' :: d :: more => if d.isDigit then some (more.dropWhile Char.isDigit) else some rest
  | _ => some rest

/-- Skips a distance from universal time, if there is one. -/
def skipOffset (cs : List Char) : List Char :=
  match cs with
  | c :: rest =>
    if c = 'Z' ∨ c = 'z' then rest
    else if c = '+' ∨ c = '-' then
      let skipped := do
        let (_, rest) ← takeTwo? 0 23 rest
        let (_, rest) ← takeTwo? 0 59 (← takeChar? ':' rest)
        return rest
      skipped.getD cs
    else cs
  | [] => []

/-- Skips a time of day behind a date, if there is one. -/
def skipTimeOfDate (cs : List Char) : List Char :=
  match cs with
  | c :: rest =>
    if c = 'T' ∨ c = 't' ∨ c = ' ' then ((skipTime? rest).map skipOffset).getD cs else cs
  | [] => []

/-- Takes a date, with or without a time of day, off a text. The calendar has to have it. -/
def takeDate? (cs : List Char) : Option (Except Fault (Value × List Char)) := do
  let (century, rest) ← takeTwo? 0 99 cs
  let (year, rest) ← takeTwo? 0 99 rest
  let (month, rest) ← takeTwo? 1 12 (← takeChar? '-' rest)
  let (day, rest) ← takeTwo? 1 31 (← takeChar? '-' rest)
  match Date.of? (100 * century + year : Nat) month day with
  | some _ => return .ok (.other, skipTimeOfDate rest)
  | none => return malformed

/-- Takes a value that is no string, word, array or table off a text. -/
def takeScalar (cs : List Char) : Except Fault (Value × List Char) :=
  match takeDate? cs, skipTime? cs, takeRadix? cs, takeDecimal? cs, takeSpecial? cs with
  | some date, _, _, _, _ => date
  | none, some rest, _, _, _ => .ok (.other, rest)
  | none, none, some number, _, _ => .ok number
  | none, none, none, some number, _ => number
  | none, none, none, none, some number => .ok number
  | none, none, none, none, none => malformed

end TimePhrase.Toml
