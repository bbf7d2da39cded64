import TimePhrase.Error
import TimePhrase.Settings.Check
import TimePhrase.Settings.Render

/-!
# The file of settings

The settings are kept in a file, which is made when it is missing and brought into its usual
form whenever it is read. A file that cannot be read or makes no sense is replaced by the
standard settings.
-/

namespace TimePhrase.Settings

/-- What the user is told about the file. -/
inductive Note
  | created
  | faulty
  | updated
  | written
deriving DecidableEq

/-- The file, and the settings that were last read from it. -/
structure Store where
  /-- The content of the file, if it exists. -/
  file : Option String
  current : Option Settings

/-- A carriage return counts as the end of a line, and so does one with a line feed. -/
def commonLineEnds : List Char → List Char
  | '\r' :: '\n' :: rest => '\n' :: commonLineEnds rest
  | c :: rest => (if c = '\r' then '\n' else c) :: commonLineEnds rest
  | [] => []

/-- The settings in a text, and whether they had to be replaced. A number beyond all limits is a
failure. -/
def orStandard (text : String) : Except Failure (Settings × List Note) :=
  match ofText text with
  | .ok s => .ok (s, [])
  | .error (.numberTooLong digits) => .error (.numberTooLong digits)
  | .error _ => .ok (standard, [.faulty])

namespace Store

/-- The store before there is a file. -/
def empty : Store := ⟨none, none⟩

/-- Writes the file. -/
def write (s : Store) (text : String) : Store := { s with file := some text }

/-- Makes the file if it is missing. -/
def ensure (s : Store) : Store × List Note :=
  match s.file with
  | some _ => (s, [])
  | none => (s.write standard.render, [.written])

/-- Reads the file, and brings it into its usual form. -/
def load (s : Store) : Except Failure (Settings × List Note × Store) :=
  match s.file with
  | none => .ok (standard, [.created], ⟨some standard.render, some standard⟩)
  | some text => do
    let (settings, notes) ← orStandard text
    let rendered := settings.render
    let update := if rendered.toList = commonLineEnds text.toList then [] else [.updated]
    let file := if update.isEmpty then text else rendered
    return (settings, notes ++ update, ⟨some file, some settings⟩)

/-- The settings, which are read only if they have not been before. -/
def settings (s : Store) : Except Failure (Settings × List Note × Store) :=
  match s.current with
  | some settings => .ok (settings, [], s)
  | none => s.load

end Store

end TimePhrase.Settings
