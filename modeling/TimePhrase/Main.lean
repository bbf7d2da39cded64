import Std.Time
import TimePhrase.CommandLine.Call

/-!
# The program

Reads the arguments, the environment, the clock and the file of settings, answers the call,
and writes what has come of it.
-/

namespace TimePhrase

/-- The present time. -/
def presentTime : IO DateTime := do
  let t ← Std.Time.PlainDateTime.now
  let date := (Date.of? t.date.year t.date.month.val t.date.day.val).getD ⟨1, 1, 1, by decide⟩
  let seconds := (t.time.hour.val.toNat * 60 + t.time.minute.val.toNat) * 60 +
    t.time.second.val.toNat
  return .onDay date (seconds * 1000000 + t.time.nanosecond.val.toNat / 1000)

/-- The content of a file, if it can be read. -/
def contentOf? (file : Path) : IO (Option String) := do
  try
    return some (← IO.FS.readFile file.text)
  catch _ =>
    return none

/-- The directory can be read. -/
def isDirectory (directory : Path) : IO Bool := do
  try
    let _ ← IO.FS.realPath (directory.child ".").text
    return true
  catch _ =>
    return false

/-- Finds the home directory of the program. -/
def findHome (chosen : Option String) : IO (Except Failure Home) := do
  let workingDirectory := Path.ofText (← IO.currentDir).toString
  let here : Home := ⟨workingDirectory⟩
  let fromEnvironment ← IO.getEnv "WHENPARSE_HOME"
  return Home.find {
    workingDirectory
    hasSettings := (← contentOf? here.settingsFile).isSome
    hasJournals := ← isDirectory here.journals
    chosenHome := chosen <|> fromEnvironment
    settingsHome := ← IO.getEnv "XDG_CONFIG_HOME"
    userHome := (← IO.getEnv "HOME").getD "/" }

/-- The input of a call: all that is piped in if the call reads expressions from it, and nothing
yet otherwise. -/
def firstInput (command : CommandLine.Command) : IO String := do
  let input ← IO.getStdin
  match command with
  | .read words =>
    if CommandLine.joinWords words = "" && !(← input.isTty) then input.readToEnd else return ""
  | _ => return ""

/-- Answers a call, reading one more line of input whenever a question has no answer yet. So much
of the text has been shown already. -/
partial def converse (answer : String → CommandLine.Report × Settings.Store) (input : String)
    (alreadyShown : Nat) : IO (CommandLine.Report × Settings.Store) := do
  let (report, store) := answer input
  IO.print (report.shown.drop alreadyShown)
  (← IO.getStdout).flush
  if report.unanswered then
    let line ← (← IO.getStdin).getLine
    if line ≠ "" then
      return ← converse answer (input ++ line) (report.shown.length + line.length)
  return (report, store)

/-- Answers a call that makes sense. -/
def answerCall (call : CommandLine.Invocation) : IO UInt32 := do
  match ← findHome call.home with
  | .error failure =>
    IO.eprintln ((failure.message?).getD "")
    return 1
  | .ok home =>
    IO.FS.createDirAll home.directory.text
    let stored ← contentOf? home.settingsFile
    let now ← presentTime
    let answer := call.answer ⟨stored, none⟩ home.settingsFile now
    let (report, store) ← converse answer (← firstInput call.command) 0
    if store.file ≠ stored then
      IO.FS.writeFile home.settingsFile.text (store.file.getD "")
    if let some failure := report.failure then
      IO.eprintln ((failure.message?).getD "")
    return report.status.toUInt32

end TimePhrase

/-- Answers the call that the arguments make. -/
def main (args : List String) : IO UInt32 := do
  match TimePhrase.CommandLine.invocation? args with
  | some call => TimePhrase.answerCall call
  | none =>
    IO.eprintln "Usage: whenparse [--home DIRECTORY] [--verbose] parse|next|snooze|presets|syntax"
    return 2
