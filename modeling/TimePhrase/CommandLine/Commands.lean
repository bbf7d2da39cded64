import TimePhrase.CommandLine.Arguments
import TimePhrase.CommandLine.Report
import TimePhrase.Display.Duration
import TimePhrase.Display.Forms
import TimePhrase.Display.Moment
import TimePhrase.Display.Rounding
import TimePhrase.Reading.Order
import TimePhrase.Reading.Run
import TimePhrase.Schedule
import TimePhrase.Settings.Basic

/-!
# The commands of the program

Each command as a function of the settings, the present time, the input and the console that it
shows its text on.
-/

namespace TimePhrase

/-- The reader that settings ask for. -/
def Settings.reader (s : Settings) (now : DateTime) : Reader :=
  ⟨s.locale, now, s.defaultTime.time.timeOfDay⟩

namespace CommandLine

open Text (quoted)

/-- What a command can make use of. -/
structure Context where
  console : Console
  settings : Settings
  now : DateTime
  verbose : Bool
  /-- The input that has been typed or piped in, with line feeds at the ends of its lines. -/
  input : String

/-- The reader for the expressions of a command. -/
def Context.reader (c : Context) : Reader := c.settings.reader c.now

/-- The words of a command as one expression. -/
def joinWords (words : List String) : String :=
  String.ofList (Text.strip (" ".intercalate words).toList)

/-- An instant as it is told at another one, with the time in between. -/
def tellTime (settings : Settings) (since time : DateTime) : String :=
  let seconds := wholeSeconds ((time.toMicros : Int) - since.toMicros)
  s!"{time.display settings.twelveHours since.date}  (in {durationInWords seconds true})"

/-- The line for one reading of an expression. -/
def readingLine (verbose : Bool) (term : Term) : String :=
  let manner := if term.isLooped then "repeats" else "once"
  let kinds :=
    if verbose then "  [blue]" ++ ", ".intercalate (term.kinds.map Kind.name) ++ "[/blue]" else ""
  s!"  • {term.text}  [dim]({manner})[/dim]" ++ kinds

/-- The lines for what has been found out about one expression. -/
def selectionLines (verbose : Bool) (s : Selection) : List String :=
  match s.outcome with
  | .error error => [s!"[red]✘ {quoted s.text}:[/red] {error.message}"]
  | .ok readings =>
    s!"[green]✔ {quoted s.text}[/green]" :: (Term.sortByText readings).map (readingLine verbose)

/-- Shows all readings of all expressions. Without words they are read from the input. -/
def runRead (c : Context) (words : List String) : Report :=
  let given := joinWords words
  let text := if given = "" then joinWords [c.input] else given
  if text = "" then
    .showing c.console (.refused "")
      ["[bold red]✘ No expression provided. Use argument or pipe.[/bold red]"]
  else
    .ofResult c.console (c.reader.readAll text) fun result =>
      .showing c.console (if result.errors.isEmpty then .done "" else .refused "")
        (result.parts.flatMap (selectionLines c.verbose))

/-- Chooses one of several readings of a text by asking, and goes on with it. -/
def choose (c : Context) (text : String) (readings : List Term) (go : Term → Report) : Report :=
  match Term.sortByText readings with
  | [] => .broken "" .noSuchPart
  | [term] => go term
  | terms =>
    let question := s!"[yellow]⚠️ [/yellow]{quoted text} can be read in {terms.length} ways:" ::
      terms.zipIdx.map fun (term, i) => s!"  {i + 1}. {term.text}"
    let (asked, answer) := askNumber terms.length (inputLines c.input)
    let report := match answer.bind fun n => terms[n - 1]? with
      | some term => (go term).after asked
      | none => .asking asked
    .showing c.console report question

/-- Reads a single expression and goes on with one of its readings. -/
def withReading (c : Context) (text : String) (go : Term → Report) : Report :=
  .ofResult c.console (c.reader.read text) fun readings =>
    choose c (joinWords [text]) readings go

/-- Named texts as an object. A text that is missing is told as such. -/
def objectText (fields : List (String × Option String)) : String :=
  let inQuotes (text : String) := "\"" ++ text ++ "\""
  "\x7b\n" ++ ",\n".intercalate (fields.map fun (name, value) =>
    "  " ++ inQuotes name ++ ": " ++ value.elim "null" inQuotes) ++ "\n\x7d\n"

/-- Shows the occurrences of a schedule. -/
def occurrencesReport (c : Context) (s : Schedule) (since : DateTime) (count : Nat) : Report :=
  let line (time : DateTime) := s!"  {tellTime c.settings since time}"
  match s with
  | .once o =>
    match o.next since with
    | .ok time => .showing c.console (.done "") [line time]
    | .error failure => .broken "" failure
  | .repeated r =>
    match r.occurrences since count with
    | .ok times =>
      let limit := if times.length < count then
          ["  [dim]no further occurrences before the 'until' limit[/dim]"]
        else []
      .showing c.console (.done "") (times.map line ++ limit)
    | .error failure => .broken "" failure

/-- Shows when an expression occurs. -/
def runNext (c : Context) (words : List String) (since : Option DateTime) (count : Nat)
    (asJson : Bool) : Report :=
  let since := since.getD c.now
  withReading c (joinWords words) fun term =>
    .ofResult c.console (Schedule.ofTerm term since c.reader.defaultTime) fun schedule =>
      if asJson then
        .ofResult c.console schedule.toDict fun fields => .done (objectText fields)
      else
        let zone := if c.verbose then ["[blue]times are local (UTC)[/blue]"] else []
        .showing c.console (occurrencesReport c schedule since count)
          (zone ++ [s!"[green]✔ {term.text}[/green]"])

/-- Shows when a reminder comes back. -/
def runSnooze (c : Context) (words : List String) (since : Option DateTime) : Report :=
  let since := since.getD c.now
  let given := joinWords words
  withReading c (if given = "" then c.settings.snooze else given) fun term =>
    .ofResult c.console (term.snooze since c.reader.defaultTime) fun time =>
      .showing c.console (.done "")
        [s!"[green]✔ {term.text}[/green]", s!"  {tellTime c.settings since time}"]

/-- A fault as it is told in a table. -/
def inRed (error : ExpressionError) : String := s!"[red]{error.message}[/red]"

/-- Where a reminder leads: the time at which it comes back, or what is wrong with it. Of several
readings the first one counts. -/
def presetTarget (settings : Settings) (since : DateTime) (s : Selection) :
    Except Failure String :=
  match s.outcome with
  | .error error => .ok (inRed error)
  | .ok readings =>
    match Term.sortByText readings with
    | [] => .error .noSuchPart
    | term :: _ =>
      match term.snooze since settings.defaultTime.time.timeOfDay with
      | .ok time => .ok (tellTime settings since time)
      | .error (.expression error) => .ok (inRed error)
      | .error failure => .error failure

/-- The rows of the table of presets. -/
def presetRows (settings : Settings) (now since : DateTime) : Except Failure (List (List String)) :=
  do
    let result ← (settings.reader now).readAll ("; ".intercalate settings.presets)
    result.parts.zipIdx.mapM fun (part, i) => do
      return [toString (i + 1), part.text, ← presetTarget settings since part]

/-- The table of presets with the given rows. -/
def presetTable (rows : List (List String)) : Console.Table :=
  ⟨"Snooze presets", [⟨"#", true⟩, ⟨"phrase", false⟩, ⟨"until", false⟩], rows⟩

/-- Shows where the presets lead. -/
def runPresets (c : Context) (since : Option DateTime) : Report :=
  match presetRows c.settings c.now (since.getD c.now) with
  | .ok rows => .ofTable c.console (presetTable rows)
  | .error failure => .broken "" failure

/-- Shows the forms of expressions. -/
def runForms (c : Context) (looped : Bool) : Report :=
  let title := if looped then "Repeating expressions" else "Expressions"
  let rows := (expressionForms looped).map fun (name, form) => [name, form]
  .ofTable c.console ⟨title, [⟨"part", false⟩, ⟨"form", false⟩], rows⟩

/-- Runs a command. -/
def run (c : Context) : Command → Report
  | .read words => runRead c words
  | .next words since count asJson => runNext c words since count asJson
  | .snooze words since => runSnooze c words since
  | .presets since => runPresets c since
  | .forms looped => runForms c looped

end CommandLine

end TimePhrase
