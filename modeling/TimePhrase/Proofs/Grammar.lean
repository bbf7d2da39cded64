import TimePhrase.Proofs.Pattern.Boundary
import TimePhrase.Proofs.Pattern.Fit
import TimePhrase.Proofs.Text.Letter

/-!
# What the patterns of both languages are like

Some of what is proved of the recognizers rests on properties of their patterns, which are found by
looking at each pattern. They are looked at here all at once, so that the patterns of a language are
made only once.
-/

namespace TimePhrase.Recognizer

open Text (specialLetters)

variable {α : Type}

/-- All patterns of a grammar but the opening of a single span, which may be empty. -/
def patterns (g : Grammar) : List (Pattern Field) :=
  g.times ++ g.invertedTimes.map (·.1) ++ g.dates.map (·.1) ++ g.monthDays.map (·.1) ++
    g.weekdays.map (·.1) ++ g.months.map (·.1) ++ [g.year, g.loopSpan.2, g.onceSpan.2] ++
    g.loopSpan.1.toList ++ g.dayKeywords.map (·.1) ++ g.limiters.map (·.1)

/-- The patterns with one of which a part of the given kind begins. The opening of a single span
is not among them, because it may be empty. -/
def patternsOf (g : Grammar) : Kind → List (Pattern Field)
  | .time => g.times
  | .invertedTime => g.invertedTimes.map (·.1)
  | .date => g.dates.map (·.1)
  | .monthDay => g.monthDays.map (·.1)
  | .weekday => g.weekdays.map (·.1)
  | .month => g.months.map (·.1)
  | .year => [g.year]
  | .span => g.onceSpan.2 :: g.loopSpan.1.toList
  | .keyword => g.dayKeywords.map (·.1)
  | .limiter => g.limiters.map (·.1)

theorem patternsOf_subset (g : Grammar) (kind : Kind) : patternsOf g kind ⊆ patterns g := by
  intro p hp
  cases kind <;> simp only [patternsOf, List.mem_cons, List.not_mem_nil, or_false] at hp <;>
    simp only [patterns, List.mem_append, List.mem_cons, List.not_mem_nil, or_false] <;> tauto

/-- Every word that the pattern stands for has a meaning. -/
def means (meanings : List (String × α)) (q : Pattern Field) : Bool :=
  match q.spellings? with
  | some words => words.all fun word =>
      word.all (!specialLetters.contains ·) && (lookUp meanings word).isOk
  | none => false

/-- Whatever fits the pattern, a word with a meaning is kept under the label. -/
def names (meanings : List (String × α)) (label : Field) (p : Pattern Field) : Bool :=
  p.always label && (p.captures label).all (means meanings)

/-- What holds of the patterns of a language. -/
@[mk_iff]
structure WellMade (locale : Locale) : Prop where
  namesNoDigit : ∀ p ∈ locale.grammar.onceSpan.1 :: patterns locale.grammar, p.namesNoDigit = true
  /-- No match ends in the middle of a number. -/
  keepsNumbers : ∀ p ∈ locale.grammar.onceSpan.1 :: patterns locale.grammar,
    p.keepsNumbers true = true
  takesBlanks : ∀ p ∈ locale.grammar.onceSpan.1 :: patterns locale.grammar, p.takesBlanks = true
  /-- Where the minutes of an inverted time are no number they are a known word. -/
  minutes : ∀ x ∈ locale.grammar.invertedTimes,
    (x.1.without? .minute).all (names locale.grammar.minuteWords .minutes) = true
  weekdays : ∀ x ∈ locale.grammar.weekdays,
    names locale.grammar.weekdayNumbers .name x.1 = true
  months : ∀ x ∈ locale.grammar.months, names locale.grammar.monthNumbers .name x.1 = true
  units : ∀ looped, names locale.grammar.units .unit (Grammar.spanItem locale looped) = true

instance (locale : Locale) : Decidable (WellMade locale) :=
  decidable_of_iff _ (wellMade_iff locale).symm

theorem wellMade (locale : Locale) : WellMade locale := by
  cases locale <;> decide +kernel

theorem takesBlanks_patternsOf (locale : Locale) (kind : Kind) {patterns : List (Pattern Field × α)}
    (hpatterns : patterns.map (·.1) = patternsOf locale.grammar kind) :
    ∀ x ∈ patterns, x.1.takesBlanks = true := by
  intro x hx
  have hmem : x.1 ∈ patternsOf locale.grammar kind := hpatterns ▸ List.mem_map_of_mem hx
  exact (List.forall_mem_cons.1 (wellMade locale).takesBlanks).2 _ (patternsOf_subset _ kind hmem)

end TimePhrase.Recognizer
