import TimePhrase.Console
import TimePhrase.Text.Integer

/-!
# What a command comes to

A command shows text and ends with a status, which is zero when all went well. A question
with several answers is asked again until a line of the input answers it.
-/

namespace TimePhrase.CommandLine

/-- What a command comes to. -/
structure Report where
  shown : String
  status : Nat
  /-- The failure that broke the command off, if one did. -/
  failure : Option Failure
  /-- The command has ended with a question because the input had no answer left. -/
  unanswered : Bool

namespace Report

/-- The command has done its work. -/
def done (shown : String) : Report := ⟨shown, 0, none, false⟩

/-- The command could not do its work, and has said why. -/
def refused (shown : String) : Report := ⟨shown, 1, none, false⟩

/-- The command has asked in vain. -/
def asking (shown : String) : Report := ⟨shown, 1, none, true⟩

/-- The command was broken off. -/
def broken (shown : String) (failure : Failure) : Report := ⟨shown, 1, some failure, false⟩

/-- The call makes no sense. -/
def misused : Report := ⟨"", 2, none, false⟩

/-- The report with more text in front. -/
def after (shown : String) (r : Report) : Report := { r with shown := shown ++ r.shown }

/-- Shows lines on the console and goes on. A line that cannot be shown breaks the command off. -/
def showing (console : Console) (go : Report) : List String → Report
  | [] => go
  | line :: lines =>
    match console.line line with
    | .ok text => (showing console go lines).after text
    | .error failure => broken "" failure

/-- Shows a table on the console, which is all that the command does. -/
def ofTable (console : Console) (table : Console.Table) : Report :=
  match console.table table with
  | .ok text => done text
  | .error failure => broken "" failure

/-- A table is all that is shown, if the console can show it. -/
theorem ofTable_eq_done_iff {console : Console} {table : Console.Table} {shown : String} :
    ofTable console table = done shown ↔ console.table table = .ok shown := by
  unfold ofTable
  cases console.table table with
  | ok text => simp [done]
  | error failure => simp [done, broken]

/-- Goes on with a result. A fault of the expression is told, any other failure breaks the
command off. -/
def ofResult {α : Type} (console : Console) (result : Except Failure α) (go : α → Report) :
    Report :=
  match result with
  | .ok a => go a
  | .error (.expression error) => showing console (refused "") [s!"[red]✘ {error.message}[/red]"]
  | .error failure => broken "" failure

end Report

/-- The lines of an input, which line feeds end. The last one may lack its end. -/
def inputLines (input : String) : List String :=
  let lines := input.splitOn "\n"
  if lines.getLast? = some "" then lines.dropLast else lines

/-- What follows a question for a number from 1 to `count`: the text shown, and the number if
the input has one. An empty line stands for 1. -/
def askNumber (count : Nat) : List String → String × Option Nat
  | [] => ("Which one [1]: ", none)
  | line :: lines =>
    let echo := s!"Which one [1]: {line}\n"
    let again (complaint : String) : String × Option Nat :=
      let (shown, answer) := askNumber count lines
      (echo ++ s!"Error: {complaint}\n" ++ shown, answer)
    if line = "" then (echo, some 1)
    else
      match Text.integer? line with
      | none => again s!"{Text.quoted line} is not a valid integer range."
      | some n =>
        if 1 ≤ n ∧ n ≤ count then (echo, some n.toNat)
        else again s!"{n} is not in the range 1<=x<={count}."

end TimePhrase.CommandLine
