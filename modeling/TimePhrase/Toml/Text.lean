import TimePhrase.Toml.Value

/-!
# Strings, keys and comments of a document

Readers of the parts of a document that are written in letters. Each takes a part off the
front of the text and answers with it and with the rest.
-/

namespace TimePhrase.Toml

/-- The text is not a document. -/
def malformed {α : Type} : Except Fault α := .error .malformed

/-- A control character other than the tab, which may stand nowhere. -/
def isControl (c : Char) : Bool := (c.toNat < 32 && c ≠ '\t') || c.toNat = 127

/-- White space within a line. -/
def isBlank (c : Char) : Bool := c = ' ' || c = '\t'

def skipBlanks (cs : List Char) : List Char := cs.dropWhile isBlank

/-- Skips the comment that begins here, if one does. -/
def skipComment (cs : List Char) : Except Fault (List Char) :=
  match cs with
  | '#' :: rest =>
    if (rest.takeWhile (· ≠ '\n')).any isControl then malformed
    else .ok (rest.dropWhile (· ≠ '\n'))
  | _ => .ok cs

/-- Skips white space, ends of lines and comments. -/
def skipLines : Nat → List Char → Except Fault (List Char)
  | 0, cs => .ok cs
  | fuel + 1, cs => do
    let rest ← skipComment (cs.dropWhile fun c => isBlank c || c = '\n')
    if rest.length = cs.length then return cs else skipLines fuel rest

/-- The number in the given hexadecimal digits. -/
def hexValue? (digits : List Char) : Option Nat :=
  digits.foldlM (fun n c => do
    let value ←
      if '0' ≤ c ∧ c ≤ '9' then some (c.toNat - 48)
      else if 'a' ≤ c ∧ c ≤ 'f' then some (c.toNat - 87)
      else if 'A' ≤ c ∧ c ≤ 'F' then some (c.toNat - 55)
      else none
    return 16 * n + value) 0

/-- The character with a number in hexadecimal digits. -/
def numbered? (digits : List Char) : Option Char := do
  let n ← hexValue? digits
  if n.isValidChar then some (Char.ofNat n) else none

/-- The character that a letter behind a backslash stands for. -/
def escaped? (c : Char) : Option Char :=
  if c = 'b' then some '\x08'
  else if c = 't' then some '\t'
  else if c = 'n' then some '\n'
  else if c = 'f' then some '\x0c'
  else if c = 'r' then some '\r'
  else if c = '"' ∨ c = '\\' then some c
  else none

/-- Takes a character by its escape off a text, without the backslash. -/
def takeEscape : List Char → Except Fault (Char × List Char)
  | 'u' :: a :: b :: c :: d :: rest =>
    (numbered? [a, b, c, d]).elim malformed fun char => .ok (char, rest)
  | 'U' :: a :: b :: c :: d :: e :: f :: g :: h :: rest =>
    (numbered? [a, b, c, d, e, f, g, h]).elim malformed fun char => .ok (char, rest)
  | c :: rest => (escaped? c).elim malformed fun char => .ok (char, rest)
  | [] => malformed

/-- Takes a string off a text up to its double quote, the opening one being gone. -/
def takeBasic : Nat → List Char → Except Fault (List Char × List Char)
  | 0, _ | _, [] => malformed
  | fuel + 1, c :: rest =>
    if c = '"' then .ok ([], rest)
    else if c = '\\' then do
      let (char, rest) ← takeEscape rest
      let (content, rest) ← takeBasic fuel rest
      return (char :: content, rest)
    else if isControl c then malformed
    else do
      let (content, rest) ← takeBasic fuel rest
      return (c :: content, rest)

/-- Takes a string without escapes off a text up to its single quote. -/
def takeLiteral : List Char → Except Fault (List Char × List Char)
  | [] => malformed
  | c :: rest =>
    if c = '\'' then .ok ([], rest)
    else if isControl c then malformed
    else do
      let (content, rest) ← takeLiteral rest
      return (c :: content, rest)

/-- What follows a backslash at the end of a line: nothing else up to the end of the line, and
then all white space up to the next character that counts. -/
def skipLineEnd? (cs : List Char) : Option (List Char) :=
  match skipBlanks cs with
  | '\n' :: rest => some (rest.dropWhile fun c => isBlank c || c = '\n')
  | [] => some []
  | _ => none

/-- Up to two more quotes behind three that end a string belong to the string. -/
def takeMoreQuotes (quote : Char) : List Char → List Char × List Char
  | a :: b :: rest =>
    if a = quote then
      if b = quote then ([quote, quote], rest) else ([quote], b :: rest)
    else ([], a :: b :: rest)
  | [a] => if a = quote then ([quote], []) else ([], [a])
  | [] => ([], [])

/-- Takes a string of several lines off a text up to its three double quotes. -/
def takeBasicLines : Nat → List Char → Except Fault (List Char × List Char)
  | 0, _ | _, [] => malformed
  | _ + 1, '"' :: '"' :: '"' :: rest => .ok (takeMoreQuotes '"' rest)
  | fuel + 1, c :: rest =>
    if c = '\\' then
      if rest.head?.any fun c => isBlank c || c = '\n' then
        (skipLineEnd? rest).elim malformed (takeBasicLines fuel)
      else do
        let (char, rest) ← takeEscape rest
        let (content, rest) ← takeBasicLines fuel rest
        return (char :: content, rest)
    else if isControl c && c ≠ '\n' then malformed
    else do
      let (content, rest) ← takeBasicLines fuel rest
      return (c :: content, rest)

/-- Takes a string of several lines without escapes off a text up to its three single
quotes. -/
def takeLiteralLines : List Char → Except Fault (List Char × List Char)
  | [] => malformed
  | '\'' :: '\'' :: '\'' :: rest => .ok (takeMoreQuotes '\'' rest)
  | c :: rest =>
    if isControl c && c ≠ '\n' then malformed
    else do
      let (content, rest) ← takeLiteralLines rest
      return (c :: content, rest)

/-- A string of several lines begins on the line after its quotes, if that is empty. -/
def skipFirstLineEnd : List Char → List Char
  | '\n' :: rest => rest
  | cs => cs

/-- Takes a string of any sort off a text. -/
def takeString (cs : List Char) : Except Fault (String × List Char) := do
  let (content, rest) ← match cs with
    | '"' :: '"' :: '"' :: rest => takeBasicLines cs.length (skipFirstLineEnd rest)
    | '"' :: rest => takeBasic cs.length rest
    | '\'' :: '\'' :: '\'' :: rest => takeLiteralLines (skipFirstLineEnd rest)
    | '\'' :: rest => takeLiteral rest
    | _ => malformed
  return (String.ofList content, rest)

/-- A character of a key that is not in quotes. -/
def isKeyChar (c : Char) : Bool := c.isAlphanum || c = '-' || c = '_'

/-- A character that a key begins with. -/
def isKeyStart (c : Char) : Bool := isKeyChar c || c = '"' || c = '\''

/-- Takes one name of a key off a text. -/
def takeName (cs : List Char) : Except Fault (String × List Char) :=
  match cs with
  | '"' :: rest => do
    let (content, rest) ← takeBasic cs.length rest
    return (String.ofList content, rest)
  | '\'' :: rest => do
    let (content, rest) ← takeLiteral rest
    return (String.ofList content, rest)
  | _ =>
    let name := cs.takeWhile isKeyChar
    if name.isEmpty then malformed else .ok (String.ofList name, cs.dropWhile isKeyChar)

/-- Takes a key off a text: names with points between them. -/
def takeKey : Nat → List Char → Except Fault (List String × List Char)
  | 0, _ => malformed
  | fuel + 1, cs => do
    let (name, rest) ← takeName cs
    match skipBlanks rest with
    | '.' :: rest => do
      let (names, rest) ← takeKey fuel (skipBlanks rest)
      return (name :: names, rest)
    | rest => return ([name], rest)

end TimePhrase.Toml
