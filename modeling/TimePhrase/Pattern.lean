import TimePhrase.Text.Blank
import TimePhrase.Text.Digit
import TimePhrase.Text.WordChar

/-!
# Patterns of text

A `Pattern` describes how a text may begin. `Pattern.matches` lists every way in which it
does, the preferred one first: earlier alternatives before later ones, and repetitions
with as many characters as possible before shorter ones. Pieces of the text can be kept
under labels.
-/

namespace TimePhrase

/-- A class of characters. -/
inductive CharClass
  | exactly (c : Char)
  | digit
  | blank
  | word
  /-- Every character but the end of a line. -/
  | any
deriving DecidableEq

/-- The character belongs to the class. `same` says which characters count as equal. -/
def CharClass.accepts (same : Char → Char → Bool) : CharClass → Char → Bool
  | exactly c => same c
  | digit => Text.isDigit
  | blank => Text.isBlank
  | word => Text.isWordChar
  | any => (· ≠ '\n')

/-- How a text may begin. Labels of type `γ` name the pieces to keep. -/
inductive Pattern (γ : Type)
  | empty
  | one (k : CharClass)
  /-- A run of characters of a class, at least `least` and at most `most` of them. -/
  | run (k : CharClass) (least : Nat) (most : Option Nat)
  | seq (p q : Pattern γ)
  | alt (p q : Pattern γ)
  | optional (p : Pattern γ)
  /-- The text goes on with the pattern, of which nothing is consumed. -/
  | followedBy (p : Pattern γ)
  | notFollowedBy (p : Pattern γ)
  /-- Nothing is left of the text, or only the end of its last line. -/
  | atEnd
  | group (label : γ) (p : Pattern γ)

/-- A piece of a text, from where `start` begins up to where `stop` does. -/
structure Slice where
  start : List Char
  stop : List Char

/-- The characters of the piece. -/
def Slice.chars (s : Slice) : List Char :=
  s.start.take (s.start.length - s.stop.length)

/-- How far a text has been matched, and the pieces kept so far, the latest first. -/
structure Match (γ : Type) where
  rest : List Char
  groups : List (γ × Slice)

namespace Match

/-- The piece kept under a label. -/
def group? {γ : Type} [DecidableEq γ] (m : Match γ) (label : γ) : Option (List Char) :=
  (m.groups.find? fun g => g.1 = label).map fun g => g.2.chars

end Match

/-- What may be left of a text behind a run of accepted characters, the longest run first.
Results are put in front of `found`. -/
def runs (accepts : Char → Bool) (least : Nat) (most : Option Nat) (found : List (List Char)) :
    List Char → List (List Char)
  | [] => if least = 0 then [] :: found else found
  | c :: cs =>
    let found := if least = 0 then (c :: cs) :: found else found
    if accepts c && most ≠ some 0 then
      runs accepts (least - 1) (most.map (· - 1)) found cs
    else
      found

namespace Pattern

variable {γ : Type}

/-- All ways to go on with a match by a pattern, the preferred one first. -/
def matches? (same : Char → Char → Bool) : Pattern γ → Match γ → List (Match γ)
  | empty, m => [m]
  | one k, m =>
    match m.rest with
    | c :: rest => if k.accepts same c then [{ m with rest }] else []
    | [] => []
  | run k least most, m =>
    (runs (k.accepts same) least most [] m.rest).map fun rest => { m with rest }
  | seq p q, m => (p.matches? same m).flatMap (q.matches? same)
  | alt p q, m => p.matches? same m ++ q.matches? same m
  | optional p, m => p.matches? same m ++ [m]
  | followedBy p, m =>
    match p.matches? same m with
    | found :: _ => [{ found with rest := m.rest }]
    | [] => []
  | notFollowedBy p, m => if (p.matches? same m).isEmpty then [m] else []
  | atEnd, m => if m.rest = [] ∨ m.rest = ['\n'] then [m] else []
  | group label p, m =>
    (p.matches? same m).map fun found =>
      { found with groups := (label, ⟨m.rest, found.rest⟩) :: found.groups }

/-- The preferred way in which a text begins with a pattern. -/
def first? (same : Char → Char → Bool) (p : Pattern γ) (text : List Char) : Option (Match γ) :=
  (p.matches? same ⟨text, []⟩).head?

/-- The preferred way in which the whole of a text fits a pattern. -/
def whole? (same : Char → Char → Bool) (p : Pattern γ) (text : List Char) : Option (Match γ) :=
  (p.matches? same ⟨text, []⟩).find? (·.rest.isEmpty)

/-- The labels of a pattern, in the order in which they first open. -/
def labels [DecidableEq γ] : Pattern γ → List γ
  | empty | one _ | run .. | atEnd => []
  | seq p q | alt p q => (p.labels ++ q.labels).eraseDups
  | optional p | followedBy p | notFollowedBy p => p.labels
  | group label p => (label :: p.labels).eraseDups

/-- The characters of a text one after the other. -/
def literal (text : List Char) : Pattern γ :=
  text.foldr (fun c p => seq (one (.exactly c)) p) empty

/-- One pattern after the other. -/
def sequence (ps : List (Pattern γ)) : Pattern γ :=
  ps.foldr seq empty

/-- The first of the patterns that fits. No pattern stands for the empty text. -/
def firstOf : List (Pattern γ) → Pattern γ
  | [] => empty
  | [p] => p
  | p :: ps => alt p (firstOf ps)

/-- One of the words, the earlier ones preferred. -/
def oneOf (words : List String) : Pattern γ :=
  firstOf (words.map fun w => literal w.toList)

/-- Any number of blanks. -/
def blanks : Pattern γ := run .blank 0 none

/-- At least one blank. -/
def someBlanks : Pattern γ := run .blank 1 none

/-- Between `least` and `most` digits that no further digit follows. -/
def digits (label : γ) (least most : Nat) : Pattern γ :=
  seq (group label (run .digit least (some most))) (notFollowedBy (one .digit))

/-- The end of a word. -/
def wordEnd : Pattern γ := notFollowedBy (one .word)

end Pattern

end TimePhrase
