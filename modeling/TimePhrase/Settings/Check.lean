import TimePhrase.Settings.Basic
import TimePhrase.Text.Blank

/-!
# From a document to settings

A document may leave out any setting and hold keys of its own, but a setting that it names
has to have a value that makes sense. Whole numbers and truth values may be written as
strings and as each other.
-/

namespace TimePhrase.Settings

open Toml (Value Table)

/-- Single underscores stand between digits only. -/
def digits? : List Char → Option (List Char)
  | [] => none
  | c :: rest => do
    let (digits, rest) := Toml.takeMoreDigits Char.isDigit rest
    if c.isDigit && rest.isEmpty then some (c :: digits) else none

/-- The number from 0 on that a string is, with no places but zeros behind a point. -/
def wholeText? (text : String) : Option Nat := do
  let cs := match Text.strip text.toList with
    | '+' :: rest => rest
    | cs => cs
  if !((cs.dropWhile (· ≠ '.')).drop 1).all (· = '0') then none
  return Text.digitsValue (← digits? (cs.takeWhile (· ≠ '.')))

/-- The whole number from 0 to 64 that a floating point number is. -/
def wholeFloat? (x : Float) : Option Nat :=
  if 0 ≤ x && x ≤ 64 && x.floor == x then some x.toUInt64.toNat else none

/-- The number from 0 on that a value is, if it is no larger than those that settings have. -/
def whole? : Value → Option Nat
  | .integer n => if n < 0 then none else some n.toNat
  | .float x => wholeFloat? x
  | .boolean b => some b.toNat
  | .text s => wholeText? s
  | _ => none

/-- The truth value that a word stands for. -/
def word? (text : String) : Option Bool :=
  let word := text.map Char.toLower
  if ["1", "on", "t", "true", "y", "yes"].contains word then some true
  else if ["0", "off", "f", "false", "n", "no"].contains word then some false
  else none

/-- The truth value of a value. -/
def truth? : Value → Option Bool
  | .boolean b => some b
  | .text s => word? s
  | .integer n => if n = 0 then some false else if n = 1 then some true else none
  | .float x => if x == 0 then some false else if x == 1 then some true else none
  | _ => none

/-- The content of a string. -/
def string? : Value → Option String
  | .text s => some s
  | _ => none

/-- The contents of strings. -/
def strings? : Value → Option (List String)
  | .array items => items.mapM string?
  | _ => none

/-- The language with the given name. -/
def locale? (v : Value) : Option Locale := do
  (Locale.named (← string? v)).toOption

/-- A number of threads. -/
def workers? (v : Value) : Option WorkerCount := do
  let n ← whole? v
  if h : 1 ≤ n ∧ n ≤ 64 then some ⟨n, h⟩ else none

/-- A time of day. -/
def time? (v : Value) : Option WrittenTime := do
  WrittenTime.of? (← string? v)

/-- The value of a key of a table, and the given one if the table does not have the key. -/
def setting {α : Type} (read : Value → Option α) (t : Table) (key : String) (standard : α) :
    Option α :=
  match t.get? key with
  | some v => read v
  | none => some standard

/-- A table within a table. -/
def table? : Value → Option Table
  | .table t => some t
  | _ => none

/-- The settings that a document names, if they make sense. -/
def ofTable? (t : Table) : Option Settings := do
  let parser ← setting table? t "parser" []
  let schedule ← setting table? t "schedule" []
  let snooze ← setting table? t "snooze" []
  let ui ← setting table? t "ui" []
  let logging ← setting table? t "logging" []
  return {
    title := ← setting string? t "title" standard.title
    locale := ← setting locale? parser "locale" standard.locale
    workers := ← setting workers? parser "max_workers" standard.workers
    defaultTime := ← setting time? schedule "default_time" standard.defaultTime
    snooze := ← setting string? snooze "default" standard.snooze
    presets := ← setting strings? snooze "presets" standard.presets
    twelveHours := ← setting truth? ui "ampm" standard.twelveHours
    journal := ← setting truth? logging "enabled" standard.journal }

/-- What is wrong with a file of settings. -/
inductive Fault
  | malformed
  /-- A setting has a value that makes no sense. -/
  | invalid
  | numberTooLong (digits : Nat)
deriving DecidableEq

/-- The settings in a document. -/
def ofText (text : String) : Except Fault Settings :=
  match Toml.read text with
  | .error .malformed => .error .malformed
  | .error (.numberTooLong digits) => .error (.numberTooLong digits)
  | .ok t =>
    match ofTable? t with
    | some s => .ok s
    | none => .error .invalid

end TimePhrase.Settings
