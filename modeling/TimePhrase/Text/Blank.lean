import TimePhrase.Text.Ranges

/-!
# Blank characters

White space: the separators of lines and paragraphs, the spaces of all widths, and the
information separators among the control characters. Zero-width characters are not blank.
-/

namespace TimePhrase.Text

/-- The ranges of white space. -/
def blankRanges : List (Nat × Nat) :=
  [(0x9, 0xD), (0x1C, 0x20), (0x85, 0x85), (0xA0, 0xA0), (0x1680, 0x1680),
   (0x2000, 0x200A), (0x2028, 0x2029), (0x202F, 0x202F), (0x205F, 0x205F), (0x3000, 0x3000)]

/-- The character is white space. -/
def isBlank (c : Char) : Bool :=
  inRanges c.toNat blankRanges

/-- The text without the blanks at its start. -/
def stripStart (cs : List Char) : List Char :=
  cs.dropWhile isBlank

/-- The text without the blanks at its end. -/
def stripEnd (cs : List Char) : List Char :=
  (cs.reverse.dropWhile isBlank).reverse

/-- The text without the blanks at either end. -/
def strip (cs : List Char) : List Char :=
  stripEnd (stripStart cs)

end TimePhrase.Text
