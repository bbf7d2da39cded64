/-!
# Tables of character ranges

Large character classes are tables of code point ranges in ascending order.
-/

namespace TimePhrase.Text

/-- The number lies in one of the ranges, which are listed in ascending order. -/
def inRanges (n : Nat) : List (Nat × Nat) → Bool
  | [] => false
  | (first, last) :: rest => if n < first then false else n ≤ last || inRanges n rest

end TimePhrase.Text
