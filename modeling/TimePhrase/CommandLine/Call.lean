import TimePhrase.CommandLine.Commands
import TimePhrase.Console.Table
import TimePhrase.Home
import TimePhrase.Settings.Store

/-!
# A call of the program

A call reads the settings, which may be told to the user, and then runs its command.
-/

namespace TimePhrase.CommandLine

/-- What the user is told about the file of settings. -/
def noteText (file : Path) : Settings.Note → String
  | .created => s!"✅ Created new config file at {file.text}\n"
  | .faulty => s!"⚠️ Config error in {file.text}\nUsing defaults.\n"
  | .updated => s!"✅ Updated {file.text} with any missing defaults.\n"
  | .written => s!"✅ Config with comments written to: {file.text}\n"

/-- Answers a call on a console, given the settings that are stored in the file. The settings
stored afterwards are part of the answer. -/
def Invocation.answerOn (console : Console) (call : Invocation) (store : Settings.Store)
    (file : Path) (now : DateTime) (input : String) : Report × Settings.Store :=
  let (store, written) := store.ensure
  match store.load with
  | .error failure => (.broken "" failure, store)
  | .ok (settings, notes, store) =>
    let told := String.join ((written ++ notes).map (noteText file))
    let input := String.ofList (Settings.commonLineEnds input.toList)
    ((run ⟨console, settings, now, call.verbose, input⟩ call.command).after told, store)

/-- Answers a call on a plain screen of 200 columns. -/
def Invocation.answer (call : Invocation) (store : Settings.Store) (file : Path) (now : DateTime)
    (input : String) : Report × Settings.Store :=
  call.answerOn (Console.screen 200) store file now input

end TimePhrase.CommandLine
