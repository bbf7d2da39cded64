import TimePhrase.Text.Escape
import TimePhrase.Error

/-!
# Formats of dates and times

A format such as `dd.MM.yyyy` is made of tokens and of text that stands for itself. Where
several tokens start, the longest is meant. Text between single quotes holds no tokens;
a quote inside it is written twice, and two quotes alone are one quote.
-/

namespace TimePhrase.Format

/-- A stretch of a format: text that may hold tokens, or text that was quoted. -/
inductive Segment
  | plain (text : List Char)
  | quoted (text : List Char)
deriving DecidableEq

/-- One element of a format: a character that stands for itself, or a token with what it
stands for. -/
inductive Piece (α : Type)
  | char (c : Char)
  | token (meaning : α)

/-- Finds the end of quoted text: the text itself and what follows the closing quote. Of
several ways to read the quotes the longest is taken; where no quote is left to close the
text, the first of the last pair of quotes does. -/
def closeQuote : List Char → Option (List Char × List Char)
  | [] => none
  | '\'' :: '\'' :: rest =>
    match closeQuote rest with
    | some (text, behind) => some ('\'' :: text, behind)
    | none => some ([], '\'' :: rest)
  | c :: rest =>
    if c = '\'' then some ([], rest)
    else (closeQuote rest).map fun (text, behind) => (c :: text, behind)

theorem length_of_closeQuote {cs text behind : List Char}
    (h : closeQuote cs = some (text, behind)) : behind.length < cs.length := by
  fun_induction closeQuote cs generalizing text behind with
  | case1 => simp at h
  | case2 rest text' behind' hclose ih =>
    simp only [Option.some.injEq, Prod.mk.injEq] at h
    obtain ⟨_, rfl⟩ := h
    have := ih hclose
    simp only [List.length_cons]
    omega
  | case3 rest hclose ih =>
    simp only [Option.some.injEq, Prod.mk.injEq] at h
    obtain ⟨_, rfl⟩ := h
    simp
  | case4 rest hpair =>
    simp only [Option.some.injEq, Prod.mk.injEq] at h
    obtain ⟨_, rfl⟩ := h
    simp
  | case5 c rest hpair hc ih =>
    simp only [Option.map_eq_some_iff, Prod.exists, Prod.mk.injEq] at h
    obtain ⟨t, b, hclose, _, rfl⟩ := h
    have := ih hclose
    simp only [List.length_cons]
    omega

/-- The segments of a format. `before` holds the plain text in front, the last character first.
A quote that opens no quoted text stands for itself. -/
def segmentsFrom (before : List Char) (cs : List Char) : List Segment :=
  match cs with
  | [] => [.plain before.reverse]
  | c :: rest =>
    if c = '\'' then
      match h : closeQuote rest with
      | some (text, behind) =>
        have := length_of_closeQuote h
        .plain before.reverse :: .quoted (if text.isEmpty then ['\''] else text) ::
          segmentsFrom [] behind
      | none => segmentsFrom (c :: before) rest
    else
      segmentsFrom (c :: before) rest
termination_by cs.length

/-- The segments of a format. -/
def segments (format : List Char) : List Segment := segmentsFrom [] format

/-- The longest non-empty token that the text starts with, with its meaning. -/
def longestToken {α : Type} (tokens : List (List Char × α)) (text : List Char) :
    Option (List Char × α) :=
  let starting := tokens.filter fun t => !t.1.isEmpty && t.1.isPrefixOf text
  starting.foldl (fun best t =>
    match best with
    | some b => if b.1.length < t.1.length then some t else best
    | none => some t) none

/-- The pieces of plain text, `skip` of its characters belonging to a token before. The empty
token, if there is one, stands wherever no other token starts. -/
def piecesFrom {α : Type} (tokens : List (List Char × α)) : Nat → List Char → List (Piece α)
  | skip + 1, _ :: rest => piecesFrom tokens skip rest
  | _ + 1, [] => []
  | 0, text =>
    let gap := (tokens.filter (·.1.isEmpty)).map fun t => Piece.token t.2
    match text with
    | [] => gap
    | c :: rest =>
      match longestToken tokens (c :: rest) with
      | some (token, meaning) => .token meaning :: piecesFrom tokens (token.length - 1) rest
      | none => gap ++ .char c :: piecesFrom tokens 0 rest

/-- The pieces of a segment. -/
def Segment.pieces {α : Type} (tokens : List (List Char × α)) : Segment → List (Piece α)
  | plain text => piecesFrom tokens 0 text
  | quoted text => text.map .char

/-- The pieces of a format. -/
def pieces {α : Type} (tokens : List (List Char × α)) (format : List Char) : List (Piece α) :=
  (segments format).flatMap (·.pieces tokens)

/-- A piece as part of a regular expression. -/
def Piece.regex : Piece String → List Char
  | char c => Text.escapeChar c
  | token meaning => meaning.toList

/-- The regular expression for a format, given the one for each token. Without any tokens a
format cannot be read. -/
def regex (tokens : List (String × String)) (format : String) : Except Failure String :=
  if tokens.isEmpty then
    .error (.unknownWord "")
  else
    let tokens := tokens.map fun (token, meaning) => (token.toList, meaning)
    .ok (String.ofList ((pieces tokens format.toList).flatMap Piece.regex))

end TimePhrase.Format
