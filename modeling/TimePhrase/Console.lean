import TimePhrase.Error

/-!
# Consoles

What lines and tables are shown on. Their texts may hold markup in square brackets, which is for
the console to follow, and a console may fail on markup that it does not understand.
-/

namespace TimePhrase

namespace Console

/-- A column of a table. -/
structure Column where
  name : String
  /-- What the column holds stands at its right edge. -/
  alignRight : Bool
deriving DecidableEq

/-- A table of texts. -/
structure Table where
  title : String
  columns : List Column
  rows : List (List String)
deriving DecidableEq

end Console

/-- A console, by what appears on it. -/
structure Console where
  /-- What a text with a line end behind it is shown as. -/
  line : String → Except Failure String
  /-- What a table is shown as. -/
  table : Console.Table → Except Failure String

end TimePhrase
