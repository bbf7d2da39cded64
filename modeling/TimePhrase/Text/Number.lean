/-!
# Numbers in fixed width

Whole numbers written with leading zeros.
-/

namespace TimePhrase.Text

/-- The digits of a number, filled up with zeros on the left to at least the given width. -/
def padNat (width n : Nat) : String :=
  let digits := toString n
  String.ofList (List.replicate (width - digits.length) '0') ++ digits

/-- A number filled up with zeros on the left to at least the given width. A minus sign
takes one place of it. -/
def padInt (width : Nat) (n : Int) : String :=
  if n < 0 then "-" ++ padNat (width - 1) n.natAbs else padNat width n.natAbs

/-- The text filled up with blanks on the left to at least the given width. -/
def padBlank (width : Nat) (text : String) : String :=
  String.ofList (List.replicate (width - text.length) ' ') ++ text

end TimePhrase.Text
