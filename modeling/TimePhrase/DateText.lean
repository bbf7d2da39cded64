import TimePhrase.Error
import TimePhrase.Text.Blank
import TimePhrase.Text.Digit
import TimePhrase.Text.Letter

/-!
# Dates and times in numbers

Reads a date written in numbers, such as `2025-01-31`, `31/1/2025` or `20250131`, with an
optional time of day such as `9:05 pm`. The order of year, month and day follows from the
numbers where they leave no choice, and from a preference where they do.
-/

namespace TimePhrase.DateText

/-- Which of the numbers of a date comes first where that is not clear. -/
structure Order where
  yearFirst : Bool
  dayFirst : Bool

/-- A stretch of text. -/
inductive Token
  /-- Digits, and the digits behind a decimal point. -/
  | number (digits : List Char) (fraction : Option (List Char))
  | word (letters : List Char)
  | mark (c : Char)

/-- The digits at the beginning of a text. -/
def leadingDigits (cs : List Char) : List Char := cs.takeWhile Text.isDigit

/-- A number with more than one point in it is several numbers. -/
def pointIsDecimal (behind : List Char) : Bool :=
  let rest := behind.dropWhile Text.isDigit
  !(leadingDigits behind).isEmpty && rest.head? ≠ some '.'

/-- Cuts a text into tokens. `dotted` says that a number and a point stand before, so that the
next point does not begin a fraction. -/
def tokensFrom (dotted : Bool) : Nat → List Char → List Token
  | 0, _ => []
  | _, [] => []
  | fuel + 1, c :: cs =>
    if Text.isDigit c then
      let digits := leadingDigits (c :: cs)
      let rest := cs.drop (digits.length - 1)
      match rest with
      | point :: behind =>
        if !dotted && (point = '.' || (point = ',' && 2 ≤ digits.length)) &&
            pointIsDecimal behind then
          let fraction := leadingDigits behind
          .number digits (some fraction) :: tokensFrom false fuel (behind.drop fraction.length)
        else
          .number digits none :: tokensFrom (point = '.') fuel rest
      | [] => [.number digits none]
    else if c.isAlpha then
      let letters := (c :: cs).takeWhile Char.isAlpha
      .word (Text.lower letters) :: tokensFrom false fuel (cs.drop (letters.length - 1))
    else
      .mark (if Text.isBlank c then ' ' else c) :: tokensFrom (dotted && c = '.') fuel cs

/-- The tokens of a text. -/
def tokens (text : List Char) : List Token := tokensFrom false text.length text

/-- What has been read so far. -/
structure State where
  /-- The numbers of the date in the order of the text. -/
  date : List Nat
  /-- The place of the number that can only be the year. -/
  yearAt : Option Nat
  hour : Option Nat
  minute : Nat
  second : Nat
  micro : Nat

/-- Adds a number to the date. More than two digits, or a value above 100, make it the year. -/
def State.addNumber? (s : State) (value : Nat) (isYear : Bool) : Option State :=
  if isYear then
    if s.yearAt.isSome then none
    else some { s with date := s.date ++ [value], yearAt := some s.date.length }
  else some { s with date := s.date ++ [value] }

/-- Adds digits to the date. -/
def State.addDigits? (s : State) (digits : List Char) : Option State :=
  s.addNumber? (Text.digitsValue digits) (2 < digits.length)

/-- Words and marks that may stand between the parts of a date. -/
def isFiller : Token → Bool
  | .number .. => false
  | .word letters =>
    ["at", "on", "and", "ad", "m", "t", "of", "st", "nd", "rd", "th"].contains
      (String.ofList letters)
  | .mark c => [' ', '.', ',', ';', '-', '/', '\''].contains c

/-- Whether a word names the second half of the day, if it names a half at all. -/
def halfDay? : Token → Option Bool
  | .word letters =>
    let word := String.ofList letters
    if word = "am" ∨ word = "a" then some false
    else if word = "pm" ∨ word = "p" then some true
    else none
  | _ => none

/-- The hour of the day for an hour of one of its halves. -/
def hourOfHalf (hour : Nat) (second : Bool) : Nat :=
  if second then (if hour < 12 then hour + 12 else hour)
  else if hour = 12 then 0 else hour

/-- The microseconds that digits behind a decimal point stand for. -/
def microsOf (fraction : List Char) : Nat :=
  Text.digitsValue ((fraction ++ List.replicate 6 '0').take 6)

/-- The value of the digits from one place up to another. -/
def slice (digits : List Char) (start stop : Nat) : Nat :=
  Text.digitsValue ((digits.take stop).drop start)

/-- Reads a number in front of other tokens, and answers with the tokens to go on with. -/
def readNumber? (s : State) (digits : List Char) (fraction : Option (List Char))
    (rest : List Token) : Option (State × List Token) :=
  let n := digits.length
  let value := Text.digitsValue digits
  let beforeColon := match rest with
    | .mark ':' :: _ => true
    | _ => false
  if s.date.length = 3 ∧ (n = 2 ∨ n = 4) ∧ fraction = none ∧ s.hour = none ∧ !beforeColon then
    some ({ s with hour := some (slice digits 0 2), minute := slice digits 2 4 }, rest)
  else if n = 6 then
    if s.date.isEmpty ∧ fraction = none then do
      let s ← s.addDigits? (digits.take 2)
      let s ← s.addDigits? ((digits.drop 2).take 2)
      return (← s.addDigits? (digits.drop 4), rest)
    else
      some ({ s with hour := some (slice digits 0 2), minute := slice digits 2 4,
                     second := slice digits 4 6, micro := microsOf (fraction.getD []) }, rest)
  else if fraction = none ∧ (n = 8 ∨ n = 12 ∨ n = 14) then do
    let s ← s.addNumber? (slice digits 0 4) true
    let s ← s.addNumber? (slice digits 4 6) false
    let s ← s.addNumber? (slice digits 6 8) false
    if n = 8 then return (s, rest)
    else
      return ({ s with hour := some (slice digits 8 10), minute := slice digits 10 12,
                       second := slice digits 12 14 }, rest)
  else
    match rest with
    | .mark ':' :: .number minute none :: .mark ':' :: .number second fraction :: rest =>
      some ({ s with hour := some value, minute := Text.digitsValue minute,
                     second := Text.digitsValue second,
                     micro := microsOf (fraction.getD []) }, rest)
    | .mark ':' :: .number minute fraction :: rest =>
      some ({ s with hour := some value, minute := Text.digitsValue minute,
                     second := microsOf (fraction.getD []) * 60 / 1000000 }, rest)
    | .mark sep :: rest' =>
      if sep = '-' ∨ sep = '/' ∨ sep = '.' then do
        let s ← if fraction = none then s.addDigits? digits else none
        match rest' with
        | [] => return (s, [])
        | .number second none :: .mark sep' :: rest'' =>
          let s ← s.addDigits? second
          if sep' = sep then
            match rest'' with
            | .number third none :: rest => return (← s.addDigits? third, rest)
            | _ => none
          else return (s, .mark sep' :: rest'')
        | .number second none :: rest => return (← s.addDigits? second, rest)
        | token :: _ => if isFiller token then return (s, rest') else none
      else
        fillerNext? s value (.mark sep) rest'
    | token :: rest' => fillerNext? s value token rest'
    | [] => (s.addNumber? value (100 < value)).map (·, [])
where
  /-- Reads a number before a filler or before a word for the half of the day. -/
  fillerNext? (s : State) (value : Nat) (token : Token) (rest : List Token) :
      Option (State × List Token) :=
    if isFiller token then
      match rest.head?.bind halfDay? with
      | some second => some ({ s with hour := some (hourOfHalf value second) }, rest.drop 1)
      | none => (s.addNumber? value (100 < value)).map (·, rest)
    else
      match halfDay? token with
      | some second =>
        if value < 24 then some ({ s with hour := some (hourOfHalf value second) }, rest)
        else none
      | none => if 1 ≤ value ∧ value ≤ 31 then (s.addNumber? value false).map (·, token :: rest)
        else none

/-- Reads all tokens. -/
def readTokens? (s : State) : Nat → List Token → Option State
  | _, [] => some s
  | 0, _ => none
  | fuel + 1, .number digits fraction :: rest => do
    let (s, rest) ← readNumber? s digits fraction rest
    readTokens? s fuel rest
  | fuel + 1, token :: rest =>
    match halfDay? token, s.hour with
    | some second, some hour =>
      if hour ≤ 12 then readTokens? { s with hour := some (hourOfHalf hour second) } fuel rest
      else none
    | some _, none => none
    | none, _ => if isFiller token then readTokens? s fuel rest else none

/-- Which of the three numbers of a date are its year, month and day. -/
def arrange (order : Order) (yearAt : Option Nat) (a b c : Nat) : Nat × Nat × Nat :=
  if 31 < a ∨ yearAt = some 0 ∨ (order.yearFirst ∧ b ≤ 12 ∧ c ≤ 31) then
    if order.dayFirst ∧ c ≤ 12 then (a, c, b) else (a, b, c)
  else if 12 < a ∨ (order.dayFirst ∧ b ≤ 12) then (c, b, a)
  else (c, a, b)

/-- The instant that a text names. -/
def read? (order : Order) (text : String) : Option DateTime := do
  let tokens := tokens (text.toList.filter (· ≠ '\x00'))
  let s ← readTokens? ⟨[], none, none, 0, 0, 0⟩ tokens.length tokens
  match s.date, s.yearAt with
  | [a, b, c], some _ =>
    let (year, month, day) := arrange order s.yearAt a b c
    let date ← Date.of? year month day
    let clock ← TimeOfDay.of? (s.hour.getD 0 : Nat) s.minute
    if h : s.second < 60 ∧ s.micro < 1000000 then
      return ⟨date, clock.hour, clock.minute, ⟨s.second, h.1⟩, ⟨s.micro, h.2⟩⟩
    else none
  | _, _ => none

/-- The instant that a text names. -/
def read (order : Order) (text : String) : Except Failure DateTime :=
  match read? order text with
  | some t => .ok t
  | none => .error .outOfRange

end TimePhrase.DateText
