import TimePhrase.Text.Blank
import TimePhrase.Text.Digit

/-!
# Whole numbers that are typed

A whole number as people type it: with blanks around it, a sign, decimal digits of any
script, and single underscores between digits.
-/

namespace TimePhrase.Text

/-- The digits of a number without the underscores between them. -/
def typedDigits? : List Char → Option (List Char)
  | [] => none
  | [c] => if isDigit c then some [c] else none
  | c :: '_' :: rest => do if isDigit c then return c :: (← typedDigits? rest) else none
  | c :: rest => do if isDigit c then return c :: (← typedDigits? rest) else none

/-- The number that a text is. -/
def integer? (text : String) : Option Int := do
  let (negative, cs) := match strip text.toList with
    | '-' :: cs => (true, cs)
    | '+' :: cs => (false, cs)
    | cs => (false, cs)
  let digits ← typedDigits? cs
  if maxDigits < digits.length then none
  let n : Int := digitsValue digits
  return if negative then -n else n

end TimePhrase.Text
