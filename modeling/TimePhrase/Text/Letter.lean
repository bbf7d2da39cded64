/-!
# Letters regardless of case

Small forms of letters, and when two letters are taken for the same one. The case pairs
are those of the Latin letters that words of the vocabulary use. A few letters outside this
range count as forms of a basic one when text is compared: the long s, the Kelvin sign, and
the dotted capital and dotless small i.
-/

namespace TimePhrase.Text

/-- The small form of a letter. The Latin capitals stand 32 places before their small forms. -/
def smallLetter (c : Char) : Char :=
  let n := c.toNat
  if (65 ≤ n ∧ n ≤ 90) ∨ (0xC0 ≤ n ∧ n ≤ 0xDE ∧ n ≠ 0xD7) then Char.ofNat (n + 32)
  else if n = 0x212A then 'k'
  else c

/-- The letter that a character stands for when case is ignored. -/
def foldLetter (c : Char) : Char :=
  match c with
  | '\u017F' => 's'
  | '\u0130' | '\u0131' => 'i'
  | _ => smallLetter c

/-- The two characters are the same letter, case ignored. -/
def sameLetter (a b : Char) : Bool :=
  foldLetter a == foldLetter b

/-- Text in small letters. The dotted capital i keeps its dot as a character of its own. -/
def lower (cs : List Char) : List Char :=
  cs.flatMap fun c => if c = '\u0130' then ['i', '\u0307'] else [smallLetter c]

end TimePhrase.Text
