import TimePhrase.Home
import TimePhrase.Text.Wrap

/-!
# Journals

The program keeps two journals, one of what it does and one of what goes wrong in it. An
entry opens with the time of day and the place in the program that wrote it; its message
follows in indented lines that fit the screen. Entries are appended to a file, by default to
one file a day under the home directory, and shown instead when the file cannot be written.
-/

namespace TimePhrase.Journal

/-- The two journals. -/
inductive Kind
  | log
  | bug
deriving DecidableEq

def Kind.name : Kind → String
  | log => "log"
  | bug => "bug"

/-- An entry of a journal. -/
structure Entry where
  kind : Kind
  /-- The place in the program that wrote the entry. -/
  caller : String
  message : String

/-- What each line of a message is indented by. -/
def indent : String := "   "

/-- The width of the lines of a message without their indentation, on a screen with so many
columns. -/
def lineWidth (columns : Int) : Nat := (max (columns - 6) 40).toNat - indent.length

/-- An entry as it is written at the given time of day. -/
def Entry.text (e : Entry) (clock : String) (columns : Int) : String :=
  let lines := Text.wrap (lineWidth columns) (Text.strip e.message.toList)
  s!"- {clock} {e.kind.name}_msg ({e.caller}):  " ++
    String.join (lines.map fun line => "\n" ++ indent ++ String.ofList line) ++ "\n\n"

/-- The file of a journal for the day with the given name. -/
def dailyFile (home : Home) (kind : Kind) (day : String) : Path :=
  home.journals.child s!"{kind.name}_{day}.md"

/-- The file that entries go to: the given one, seen from the home directory, or the daily
one. -/
def file (home : Home) (kind : Kind) (day : String) (given : Option String) : Path :=
  match given with
  | some text => home.directory.join (.ofText text)
  | none => dailyFile home kind day

/-- What comes of writing entries. -/
structure Outcome where
  /-- The text added to the file. -/
  added : String
  /-- The text shown on the screen. -/
  shown : String

/-- Writes entries, given as texts. They are shown if that is asked for or there is no other
way. -/
def write (canWrite showAll : Bool) (entries : List String) : Outcome where
  added := if canWrite then String.join entries else ""
  shown := if showAll || !canWrite then String.join (entries.map (· ++ "\n")) else ""

end TimePhrase.Journal
