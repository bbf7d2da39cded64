import TimePhrase.DateText
import TimePhrase.Text.Integer

/-!
# The arguments of the program

The program is called with options of its own, the name of a command, and the words and
options of the command. Options and words of a command may be mixed; two dashes alone end
its options.
-/

namespace TimePhrase.CommandLine

/-- An option: its long name, the letter that is its short name, and whether a value follows. -/
structure OptionForm where
  name : String
  letter : Option Char
  hasValue : Bool

/-- The options that were given, in order, and the words between and behind them. -/
structure Given where
  options : List (String × String)
  words : List String

/-- Adds an option in front. -/
def Given.addOption (form : OptionForm) (value : String) (g : Given) : Given :=
  { g with options := (form.name, value) :: g.options }

/-- The value of an option, the last one if it was given several times. -/
def Given.value? (g : Given) (name : String) : Option String :=
  (g.options.reverse.find? (·.1 = name)).map (·.2)

/-- The option was given. -/
def Given.has (g : Given) (name : String) : Bool := (g.value? name).isSome

/-- Reads letters behind a single dash, each of them the short name of an option. What follows
the letter of an option with a value is the value, or else the next argument is. Answers with
the options and the arguments that remain. -/
def readLetters? (forms : List OptionForm) :
    List Char → List String → Option (List (OptionForm × String) × List String)
  | [], rest => some ([], rest)
  | c :: letters, rest => do
    let form ← forms.find? (·.letter = some c)
    if form.hasValue then
      match letters, rest with
      | [], [] => none
      | [], value :: rest => return ([(form, value)], rest)
      | letters, rest => return ([(form, String.ofList letters)], rest)
    else
      let (options, rest) ← readLetters? forms letters rest
      return ((form, "") :: options, rest)

/-- Reads an option by its long name, with its value behind an equals sign or in the next
argument. -/
def readLong? (forms : List OptionForm) (arg : List Char) (rest : List String) :
    Option (List (OptionForm × String) × List String) := do
  let name := String.ofList (arg.takeWhile (· ≠ '='))
  let form ← forms.find? fun f => "--" ++ f.name = name
  match form.hasValue, arg.dropWhile (· ≠ '='), rest with
  | false, [], rest => return ([(form, "")], rest)
  | true, _ :: value, rest => return ([(form, String.ofList value)], rest)
  | true, [], value :: rest => return ([(form, value)], rest)
  | _, _, _ => none

/-- Reads arguments. If `mixed` is not set, the first word ends the options. -/
def readArguments? (forms : List OptionForm) (mixed : Bool) : Nat → List String → Option Given
  | 0, _ | _, [] => some ⟨[], []⟩
  | fuel + 1, arg :: rest =>
    match arg.toList with
    | ['-', '-'] => some ⟨[], rest⟩
    | '-' :: c :: letters => do
      let (options, rest) ←
        if c = '-' then readLong? forms arg.toList rest
        else readLetters? forms (c :: letters) rest
      let given ← readArguments? forms mixed fuel rest
      return options.foldr (fun (form, value) g => g.addOption form value) given
    | _ =>
      if mixed then do
        let given ← readArguments? forms mixed fuel rest
        return { given with words := arg :: given.words }
      else some ⟨[], arg :: rest⟩

/-- What the program can be asked to do. -/
inductive Command
  /-- Show all readings of expressions. -/
  | read (words : List String)
  /-- Show when an expression occurs. -/
  | next (words : List String) (since : Option DateTime) (count : Nat) (asJson : Bool)
  /-- Show when a reminder comes back. -/
  | snooze (words : List String) (since : Option DateTime)
  /-- Show where the presets lead. -/
  | presets (since : Option DateTime)
  /-- Show the forms of expressions. -/
  | forms (looped : Bool)

/-- A call of the program. -/
structure Invocation where
  /-- The home directory that the call asks for. -/
  home : Option String
  verbose : Bool
  command : Command

/-- A time to start from; the word `now` is the same as no time. -/
def since? (g : Given) : Option (Option DateTime) :=
  match g.value? "since" with
  | none => some none
  | some text =>
    let text := String.ofList (Text.lower (Text.strip text.toList))
    if text = "now" then some none else (DateText.read? ⟨true, false⟩ text).map some

/-- A number of occurrences from 1 to 100. -/
def count? (g : Given) : Option Nat :=
  match g.value? "count" with
  | none => some 1
  | some text => do
    let n ← Text.integer? text
    if 1 ≤ n ∧ n ≤ 100 then some n.toNat else none

def sinceForm : OptionForm := ⟨"since", none, true⟩

/-- Reads the arguments of a command that takes no words. -/
def readOptions? (forms : List OptionForm) (args : List String) : Option Given := do
  let given ← readArguments? forms true args.length args
  if given.words.isEmpty then some given else none

/-- Reads a command with its arguments. -/
def command? (name : String) (args : List String) : Option Command :=
  if name = "parse" then do
    return .read (← readArguments? [] true args.length args).words
  else if name = "next" then do
    let forms := [sinceForm, ⟨"count", some 'n', true⟩, ⟨"json", none, false⟩]
    let given ← readArguments? forms true args.length args
    if given.words.isEmpty then none
    return .next given.words (← since? given) (← count? given) (given.has "json")
  else if name = "snooze" then do
    let given ← readArguments? [sinceForm] true args.length args
    return .snooze given.words (← since? given)
  else if name = "presets" then do
    return .presets (← since? (← readOptions? [sinceForm] args))
  else if name = "syntax" then do
    return .forms ((← readOptions? [⟨"loop", none, false⟩] args).has "loop")
  else none

/-- Reads the arguments of a call. There is no answer if they make no sense. -/
def invocation? (args : List String) : Option Invocation := do
  let forms := [⟨"home", none, true⟩, ⟨"verbose", some 'v', false⟩]
  let given ← readArguments? forms false args.length args
  match given.words with
  | name :: args =>
    return ⟨(given.value? "home").filter (· ≠ ""), given.has "verbose", ← command? name args⟩
  | [] => none

end TimePhrase.CommandLine
