import TimePhrase.Text.Blank
import TimePhrase.Text.Cells

/-!
# Lines of a plain screen

A plain screen has no colours and leaves markup out. Text that is shown is first freed of markup
and then broken into lines no wider than the screen. A line ends behind the blanks that follow a
word, and only a word wider than the screen is cut inside.
-/

namespace TimePhrase.Console

open Text (isBlank cells charCells stripEnd)

/-- A bracket in front of this character opens markup. -/
def opensMarkup (c : Char) : Bool :=
  ('a' ≤ c && c ≤ 'z') || c = '#' || c = '/' || c = '@'

/-- The text without markup, which is what stands in square brackets behind a small letter,
`#`, `/` or `@`. `pending` holds what may be markup, its last character first. -/
def plainFrom (pending : List Char) : List Char → List Char
  | [] => pending.reverse
  | c :: cs =>
    if c = '[' then pending.reverse ++ plainFrom ['['] cs
    else if pending.isEmpty then c :: plainFrom [] cs
    else if pending.length = 1 then
      if opensMarkup c then plainFrom (c :: pending) cs else '[' :: c :: plainFrom [] cs
    else if c = ']' then plainFrom [] cs
    else plainFrom (c :: pending) cs

@[inherit_doc plainFrom]
def plain (text : String) : String := String.ofList (plainFrom [] text.toList)

/-- Cuts a text in front of every word but the first. `inWord` says that a word has begun. -/
def piecesFrom (inWord : Bool) : List Char → List (List Char)
  | [] => []
  | c :: cs =>
    let inWord := inWord || !isBlank c
    if inWord && isBlank c && cs.head?.any (!isBlank ·) then [c] :: piecesFrom false cs
    else
      match piecesFrom inWord cs with
      | [] => [[c]]
      | piece :: pieces => (c :: piece) :: pieces

/-- Cuts a piece into parts that fill a line each. `room` is what is left of the line. -/
def chop (width : Nat) : Nat → List Char → List (List Char)
  | _, [] => [[]]
  | room, c :: cs =>
    if room < charCells c then
      match chop width (width - charCells c) cs with
      | [] => [[], [c]]
      | part :: parts => [] :: (c :: part) :: parts
    else
      match chop width (room - charCells c) cs with
      | [] => [[c]]
      | part :: parts => (c :: part) :: parts

/-- Adds a piece to the lines that are full and the line that is being filled. -/
def addPiece (width : Nat) (state : List (List Char) × List Char) (piece : List Char) :
    List (List Char) × List Char :=
  let (full, line) := state
  let size := cells (stripEnd piece)
  if cells line + size ≤ width then (full, line ++ piece)
  else
    let full := if line.isEmpty then full else full ++ [line]
    if width < size then
      let parts := chop width width piece
      (full ++ parts.dropLast, parts.getLastD [])
    else (full, piece)

/-- Breaks a text without line ends into lines. -/
def fold (width : Nat) (cs : List Char) : List (List Char) :=
  let (full, line) := (piecesFrom false cs).foldl (addPiece width) ([], [])
  full ++ [line]

/-- The lines of a text in the given width. -/
def linesOf (width : Nat) (text : String) : List (List Char) :=
  (text.splitOn "\n").flatMap fun line => fold width line.toList

/-- A text as it stands on a screen of the given width. -/
def shown (width : Nat) (text : String) : String :=
  String.join ((linesOf width (plain text)).map fun line => String.ofList line ++ "\n")

end TimePhrase.Console
