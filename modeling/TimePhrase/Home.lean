import TimePhrase.Path

/-!
# The home directory of the program

Where the settings and the journals are kept: in the working directory if it looks like a
home, and otherwise where the environment says.
-/

namespace TimePhrase

/-- What the choice of a home directory depends on. -/
structure Surroundings where
  workingDirectory : Path
  /-- The working directory has a file of settings. -/
  hasSettings : Bool
  /-- The working directory has a directory of journals. -/
  hasJournals : Bool
  /-- The home directory that is asked for, if any. -/
  chosenHome : Option String
  /-- The directory in which all programs keep their settings, if it is set. -/
  settingsHome : Option String
  /-- The home directory of the user. -/
  userHome : String

/-- The home directory of the program. -/
structure Home where
  directory : Path
deriving DecidableEq

namespace Home

/-- The file of settings. -/
def settingsFile (h : Home) : Path := h.directory.child "config.toml"

/-- The directory of the journals. -/
def journals (h : Home) : Path := h.directory.child "logs"

/-- A variable of the environment counts as not set when it is empty. -/
def given? (value : Option String) : Option String :=
  value.filter (· ≠ "")

/-- Finds the home directory. -/
def find (s : Surroundings) : Except Failure Home := do
  if s.hasSettings && s.hasJournals then
    return ⟨s.workingDirectory⟩
  match given? s.chosenHome, given? s.settingsHome with
  | some chosen, _ => return ⟨← (Path.ofText chosen).expandHome s.userHome⟩
  | none, some settings =>
    return ⟨(← (Path.ofText settings).expandHome s.userHome).child "whenparse"⟩
  | none, none =>
    let user ← (Path.ofText "~").expandHome s.userHome
    return ⟨(user.child ".config").child "whenparse"⟩

end Home

end TimePhrase
