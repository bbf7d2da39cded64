/-!
# Escaping text for regular expressions

A character that has a meaning of its own in a regular expression stands for itself behind
a backslash.
-/

namespace TimePhrase.Text

/-- The characters that are escaped: those with a meaning of their own, and ASCII blanks. -/
def specialChars : List Char :=
  ['(', ')', '[', ']', '{', '}', '?', '*', '+', '-', '|', '^', '$', '\\', '.', '&', '~', '#',
    ' ', '\t', '\n', '\r', '\x0b', '\x0c']

/-- A character as it is written in a regular expression to stand for itself. -/
def escapeChar (c : Char) : List Char :=
  if specialChars.contains c then ['\\', c] else [c]

/-- The text as it is written in a regular expression to stand for itself. -/
def escape (text : List Char) : List Char :=
  text.flatMap escapeChar

end TimePhrase.Text
