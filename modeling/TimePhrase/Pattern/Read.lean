import TimePhrase.Pattern

/-!
# Patterns in writing

Reads the usual notation of regular expressions, as far as formats need it: characters and
classes of characters with counts, alternatives, optional groups, look-ahead, and groups
that are kept under a name.
-/

namespace TimePhrase.Pattern

/-- How often something is repeated. -/
structure Count where
  least : Nat
  most : Option Nat

/-- The number at the beginning of a text, if there is one. -/
def readNat (cs : List Char) : Option Nat × List Char :=
  let digits := cs.takeWhile Char.isDigit
  (if digits.isEmpty then none else some (Text.digitsValue digits), cs.drop digits.length)

/-- The count at the beginning of a text: once if none is written. -/
def readCount (cs : List Char) : Count × List Char :=
  match cs with
  | '?' :: rest => (⟨0, some 1⟩, rest)
  | '*' :: rest => (⟨0, none⟩, rest)
  | '+' :: rest => (⟨1, none⟩, rest)
  | '{' :: rest =>
    match readNat rest with
    | (some n, '}' :: rest) => (⟨n, some n⟩, rest)
    | (least, ',' :: rest) =>
      match readNat rest with
      | (most, '}' :: rest) => (⟨least.getD 0, most⟩, rest)
      | _ => (⟨1, some 1⟩, cs)
    | _ => (⟨1, some 1⟩, cs)
  | _ => (⟨1, some 1⟩, cs)

/-- The class that a character stands for behind a backslash. -/
def escapedClass (c : Char) : CharClass :=
  if c = 'd' then .digit
  else if c = 's' then .blank
  else if c = 'w' then .word
  else if c = 'n' then .exactly '\n'
  else if c = 't' then .exactly '\t'
  else if c = 'r' then .exactly '\r'
  else .exactly c

/-- A class of characters as often as its count says. -/
def counted (k : CharClass) (count : Count) : Pattern String :=
  if count.least = 1 ∧ count.most = some 1 then one k else run k count.least count.most

mutual

/-- Reads alternatives up to a closing bracket or the end. -/
def readAlternatives : Nat → List Char → Option (Pattern String × List Char)
  | 0, _ => none
  | fuel + 1, cs => do
    let (p, rest) ← readSequence fuel cs
    match rest with
    | '|' :: rest =>
      let (q, rest) ← readAlternatives fuel rest
      return (alt p q, rest)
    | _ => return (p, rest)

/-- Reads items up to a bar, a closing bracket or the end. -/
def readSequence : Nat → List Char → Option (Pattern String × List Char)
  | 0, _ => none
  | _, [] => some (empty, [])
  | fuel + 1, c :: cs =>
    if c = '|' ∨ c = ')' then some (empty, c :: cs)
    else do
      let (p, rest) ← readItem fuel c cs
      let (q, rest) ← readSequence fuel rest
      return (seq p q, rest)

/-- Reads one item that begins with the given character. A group may be optional, and has no
other count. -/
def readItem : Nat → Char → List Char → Option (Pattern String × List Char)
  | 0, _, _ => none
  | fuel + 1, c, cs =>
    match c, cs with
    | '(', '?' :: 'P' :: '<' :: rest =>
      let label := String.ofList (rest.takeWhile (· ≠ '>'))
      readGroup fuel (group label) (rest.drop (label.length + 1))
    | '(', '?' :: ':' :: rest => readGroup fuel id rest
    | '(', '?' :: '=' :: rest => readGroup fuel followedBy rest
    | '(', '?' :: '!' :: rest => readGroup fuel notFollowedBy rest
    | '(', rest => readGroup fuel id rest
    | '$', rest => some (atEnd, rest)
    | '\\', escaped :: rest =>
      let (count, rest) := readCount rest
      some (counted (escapedClass escaped) count, rest)
    | c, rest =>
      let (count, rest) := readCount rest
      some (counted (if c = '.' then .any else .exactly c) count, rest)

/-- Reads the inside of a group, its closing bracket and its count. -/
def readGroup : Nat → (Pattern String → Pattern String) → List Char →
    Option (Pattern String × List Char)
  | 0, _, _ => none
  | fuel + 1, wrap, cs => do
    let (p, rest) ← readAlternatives fuel cs
    match rest with
    | ')' :: rest =>
      match readCount rest with
      | (⟨0, some 1⟩, rest) => return (optional (wrap p), rest)
      | (⟨1, some 1⟩, rest) => return (wrap p, rest)
      | _ => none
    | _ => none

end

/-- The pattern that a text is the notation of. -/
def ofText? (text : String) : Option (Pattern String) :=
  match readAlternatives (4 * text.length + 4) text.toList with
  | some (p, []) => some p
  | _ => none

end TimePhrase.Pattern
