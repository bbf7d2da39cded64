import TimePhrase.Vocabulary.German
import TimePhrase.Error
import TimePhrase.Text.Escape

/-!
# Vocabularies

The languages that expressions are written in, and the words that each has under a key.
Alternatives are tried from the longest to the shortest word, so that "on the next " is
preferred to "on ".
-/

namespace TimePhrase

/-- The languages that expressions can be written in. -/
inductive Locale
  | english
  | german
deriving DecidableEq

namespace Locale

/-- The locale with the given name. -/
def named (name : String) : Except Failure Locale :=
  if name = "en" then .ok english
  else if name = "de" then .ok german
  else .error (.unknownLocale name)

def name : Locale → String
  | english => "en"
  | german => "de"

/-- The words listed under a key, in the order in which they are listed. -/
def words : Locale → Key → List String
  | english => English.words
  | german => German.words

end Locale

/-- Puts a word in front of the first word that is not longer. -/
def insertByLength (word : String) : List String → List String
  | [] => [word]
  | other :: rest =>
    if other.length ≤ word.length then word :: other :: rest
    else other :: insertByLength word rest

/-- Words from the longest to the shortest. Words of one length keep their order. -/
def longestFirst (words : List String) : List String :=
  words.foldr insertByLength []

/-- Cuts an entry at its last colon. An entry without colon is all value. -/
def cutAtLastColon (entry : List Char) : List Char × List Char :=
  let value := (entry.reverse.takeWhile (· ≠ ':')).reverse
  (entry.take (entry.length - value.length - 1), value)

namespace Locale

/-- The words listed under a key, the longest first. -/
def longest (locale : Locale) (key : Key) : List String :=
  longestFirst (locale.words key)

/-- The words listed under a key with their values, the longest entry first. -/
def keywords (locale : Locale) (key : Key) : List (String × String) :=
  (locale.longest key).map fun entry =>
    let (word, value) := cutAtLastColon entry.toList
    (String.ofList word, String.ofList value)

/-- The entry of a key as one text, its alternatives separated by bars. -/
def entry (locale : Locale) (key : Key) : String :=
  "|".intercalate (locale.words key)

end Locale

/-- A word as it stands in a regular expression. -/
def escapeWord (word : String) : String :=
  String.ofList (Text.escape word.toList)

/-- Alternatives, already escaped, as one part of a regular expression. -/
def alternation (words : List String) : String :=
  "(?:" ++ "|".intercalate words ++ ")"

end TimePhrase
