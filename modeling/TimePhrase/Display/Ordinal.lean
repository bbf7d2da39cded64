/-!
# Ordinal numbers

Whole numbers with the ending that English gives to a place in an order.
-/

namespace TimePhrase

/-- The ending of the ordinal for a number. The tenth to the twentieth of each hundred take
"th" whatever their last digit is. -/
def ordinalEnding (n : Int) : String :=
  if 10 ≤ n % 100 ∧ n % 100 ≤ 20 then "th"
  else if n % 10 = 1 then "st"
  else if n % 10 = 2 then "nd"
  else if n % 10 = 3 then "rd"
  else "th"

/-- The ordinal for a number. -/
def ordinal (n : Int) : String := toString n ++ ordinalEnding n

end TimePhrase
