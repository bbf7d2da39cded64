import TimePhrase.Text.Blank
import TimePhrase.Text.Digit
import TimePhrase.Text.WordChar

/-!
# Breaking text into lines

A paragraph is cut into chunks, between which a line may end: runs of blanks, words, and
dashes between words. A word with hyphens is several chunks, each up to and with a hyphen.
Lines are filled with as many chunks as fit, and only a chunk longer than a line is cut
inside. Blanks at the end of a line and at the start of all lines but the first are dropped.
-/

namespace TimePhrase.Text

/-- The paragraph with every tab replaced by blanks up to the next multiple of eight columns,
counted from the last line break. -/
def expandTabs (column : Nat) : List Char → List Char
  | [] => []
  | c :: cs =>
    if c = '\t' then
      let width := 8 - column % 8
      List.replicate width ' ' ++ expandTabs (column + width) cs
    else if c = '\n' ∨ c = '\r' then c :: expandTabs 0 cs
    else c :: expandTabs (column + 1) cs

/-- ASCII white space becomes a plain blank. -/
def plainBlank (c : Char) : Char :=
  if c = '\t' ∨ c = '\n' ∨ c = '\x0b' ∨ c = '\x0c' ∨ c = '\r' then ' ' else c

/-- A letter in the sense of hyphenation: any character of words that is not a decimal digit. -/
def isLetter (c : Char) : Bool := isWordChar c && !isDigit c

/-- A character behind which dashes may end a word. -/
def endsWord (c : Char) : Bool :=
  isWordChar c || ['!', '"', '\'', '&', '.', ',', '?'].contains c

/-- Two or more dashes in front of a word. -/
def startsDash (cs : List Char) : Bool :=
  match cs with
  | '-' :: '-' :: rest => (rest.dropWhile (· = '-')).head?.any isWordChar
  | _ => false

/-- The sorts of chunks. -/
inductive ChunkKind
  | blanks
  | dashes
  | word
deriving DecidableEq

/-- The sort of the chunk that starts between the characters before, the last one first, and
those behind. -/
def ChunkKind.start (before after : List Char) : ChunkKind :=
  if after.head? = some ' ' then .blanks
  else if before.head?.any endsWord && startsDash after then .dashes
  else .word

/-- The hyphen that comes last in `before` may end a line: a word with two letters, or with a
letter, a hyphen and a letter in front of it goes on behind it. -/
def breaksAtHyphen (before after : List Char) : Bool :=
  let front := match before with
    | '-' :: b :: a :: more =>
      isLetter b && (isLetter a || (a = '-' && more.head?.any isLetter))
    | _ => false
  let back := match after with
    | c :: '-' :: d :: _ => isLetter c && isLetter d
    | c :: d :: _ => isLetter c && isLetter d
    | _ => false
  front && back

/-- A chunk of the given sort ends between the characters before and behind. `first` says that
only one character of it has been seen. -/
def ChunkKind.ends (kind : ChunkKind) (first : Bool) (before after : List Char) : Bool :=
  match kind with
  | blanks => after.head? ≠ some ' '
  | dashes => after.head? ≠ some '-'
  | word =>
    (!first && breaksAtHyphen before after) || after.isEmpty || after.head? = some ' ' ||
      (before.head?.any endsWord && startsDash after)

/-- Cuts a paragraph into chunks. `running` is the sort of the chunk that has begun. -/
def chunksFrom (before : List Char) (running : Option ChunkKind) :
    List Char → List (List Char)
  | [] => []
  | c :: after =>
    let kind := running.getD (.start before (c :: after))
    if kind.ends running.isNone (c :: before) after then
      [c] :: chunksFrom (c :: before) none after
    else
      match chunksFrom (c :: before) (some kind) after with
      | [] => [[c]]
      | chunk :: chunks => (c :: chunk) :: chunks

/-- The chunks of a paragraph. Put together they are the paragraph again. -/
def chunks (paragraph : List Char) : List (List Char) := chunksFrom [] none paragraph

/-- The chunks that fit into the given width, and those behind them. -/
def takeFitting (width : Nat) : List (List Char) → List (List Char) × List (List Char)
  | [] => ([], [])
  | chunk :: rest =>
    if chunk.length ≤ width then
      let (line, others) := takeFitting (width - chunk.length) rest
      (chunk :: line, others)
    else ([], chunk :: rest)

/-- Where a chunk that is too long is cut: behind the last hyphen that fits and does not stand
behind hyphens alone, and otherwise at the end of the line. -/
def cutPlace (width : Nat) (chunk : List Char) : Nat :=
  let head := chunk.take width
  let back := (head.reverse.takeWhile (· ≠ '-')).length
  let hyphen := head.length - back - 1
  if back < head.length && (head.take hyphen).any (· ≠ '-') then hyphen + 1 else width

/-- Fills one line. A chunk that fits into no line is cut to fill up the line. -/
def fillLine (width : Nat) (chunks : List (List Char)) :
    List (List Char) × List (List Char) :=
  let (line, rest) := takeFitting width chunks
  match rest with
  | chunk :: others =>
    if width < chunk.length then
      let place := cutPlace (width - line.flatten.length) chunk
      (line ++ [chunk.take place], chunk.drop place :: others)
    else (line, rest)
  | [] => (line, rest)

/-- All characters are blank. -/
def isAllBlank (cs : List Char) : Bool := cs.all isBlank

/-- The line without a last chunk of blanks. -/
def dropLastBlank (line : List (List Char)) : List (List Char) :=
  if line.getLast?.any isAllBlank then line.dropLast else line

/-- Fills lines with chunks. Every line takes up a chunk or a character at least. -/
def fillLines (width : Nat) : Nat → Bool → List (List Char) → List (List Char)
  | 0, _, _ => []
  | _, _, [] => []
  | fuel + 1, isFirst, chunk :: rest =>
    let chunks := if isAllBlank chunk && !isFirst then rest else chunk :: rest
    let (line, others) := fillLine width chunks
    match dropLastBlank line with
    | [] => fillLines width fuel isFirst others
    | line => line.flatten :: fillLines width fuel false others

/-- The lines of a paragraph, none longer than the width. -/
def wrap (width : Nat) (paragraph : List Char) : List (List Char) :=
  let plain := (expandTabs 0 paragraph).map plainBlank
  fillLines width plain.length true (chunks plain)

end TimePhrase.Text
