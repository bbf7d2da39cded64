import TimePhrase.Proofs.Description.Reread
import TimePhrase.Proofs.Grammar
import TimePhrase.Proofs.Reading.Chain

/-!
# Times of day and inverted times

Where a text begins with an inverted time, a time of day can be found too, the minutes being taken
for its hour. The two name different times, or else nothing can be read behind the time of day. The
texts that begin with an inverted time are known up to its sign, in canonical characters, so that
what the other patterns do with them is found by tracing a few texts.
-/

namespace TimePhrase

deriving instance DecidableEq for Pattern

open Text (canonical digitsValue plainDigits isDigit sameLetter foldLetter)

theorem TimeOfDay.of_of? {hour minute : Int} {clock : TimeOfDay}
    (h : of? hour minute = some clock) : hour < 24 ∧ (clock.minute : Int) = minute := by
  unfold of? at h
  split at h
  · obtain rfl := Option.some.inj h
    dsimp only
    omega
  · cases h

namespace Pattern

variable {γ : Type} {start stop : List Char} {kept : List (γ × Slice)}

/-- A text one character after the other, and then a pattern. -/
def spelled (text : List Char) (p : Pattern γ) : Pattern γ :=
  text.foldr (fun c p => seq (one (.exactly c)) p) p

/-- Characters that are their own canonical characters, but for digits. -/
def Settled (text : List Char) : Prop :=
  ∀ c ∈ text, isDigit c = false ∧ foldLetter c = c

instance (text : List Char) : Decidable (Settled text) :=
  List.decidableBAll _ text

theorem map_canonical_of_spelling {word chars : List Char} (hword : Settled word)
    (hchars : List.Forall₂ (fun a b => sameLetter a b = true) word chars) :
    chars.map canonical = word := by
  induction hchars with
  | nil => rfl
  | cons hsame _ ih =>
    obtain ⟨⟨hdigit, hsmall⟩, hrest⟩ := List.forall_mem_cons.1 hword
    rw [List.map_cons, ih hrest, Text.canonical_eq_of_sameLetter hsame hdigit hsmall]

/-- What fits a text and then a pattern begins with the text and fits the pattern behind it. -/
theorem Fits.of_spelled {p : Pattern γ} {text : List Char} (htext : Settled text)
    (h : (spelled text p).Fits sameLetter start stop kept) :
    ∃ chars middle, start = chars ++ middle ∧ chars.map canonical = text ∧
      p.Fits sameLetter middle stop kept := by
  induction text generalizing start kept with
  | nil => exact ⟨[], start, rfl, rfl, h⟩
  | cons c text ih =>
    obtain ⟨⟨hdigit, hsmall⟩, hrest⟩ := List.forall_mem_cons.1 htext
    obtain ⟨_, _, after, ⟨⟨d, hd, rfl⟩, rfl⟩, h, rfl⟩ := h
    obtain ⟨chars, middle, rfl, hchars, hfits⟩ := ih hrest h
    refine ⟨d :: chars, middle, rfl, ?_, by rwa [List.append_nil]⟩
    rw [List.map_cons, hchars, Text.canonical_eq_of_sameLetter hd hdigit hsmall]

end Pattern

namespace Recognizer

open Pattern (digits firstOf literal oneOf Settled)

variable {locale : Locale} {text tail : List Char} {m : Match Field}

/-- Digits by their places. -/
def digitSigns (count : Nat) : List Sign := (List.range count).map .digit

theorem map_fill_digitSigns (chars : List Char) :
    (digitSigns chars.length).map (Sign.fill (digitsAt chars)) = chars := by
  refine List.ext_getElem (by simp [digitSigns]) fun i hi hi' => ?_
  simp [digitSigns, Sign.fill, digitsAt, hi']

section Shape

/-- What stands between the minutes and the hour of an inverted time, and whether the minutes are
missing to the hour. -/
def invertedSigns : Locale → List (String × Bool)
  | .english => [(" past ", false), ("-past ", false), (" to ", true)]
  | .german => [(" nach ", false), (" vor ", true)]

/-- The words for numbers of minutes. -/
def minuteNames (locale : Locale) : List String := locale.grammar.minuteWords.map (·.1)

/-- What a time of day may begin with. -/
def timeOpenings (locale : Locale) : List String := locale.longest .timeBefore ++ [""]

/-- An inverted time by the least number of digits of its minutes, the sign behind them and its
hour. -/
def invertedPattern (locale : Locale) (least : Nat) (sign : String) (hours : Pattern Field) :
    Pattern Field :=
  Grammar.closed <| .sequence [.optional (oneOf (locale.longest .timeBefore)),
    .seq (.group .minutes (.alt (.sequence [digits .minute least 2])
        (firstOf ((minuteNames locale).map (literal ·.toList)))))
      (.spelled sign.toList (.seq hours .empty)),
    Grammar.optionalWords (locale.longest .timeAfter)]

/-- What is left of a sign behind the blanks in front of it. -/
def signRest (sign : String) : List Sign := (sign.toList.dropWhile (· = ' ')).map .char

/-- What the patterns of inverted times are, and what all patterns of the language find in such
times. -/
@[mk_iff]
structure Traced (locale : Locale) : Prop where
  shape : ∀ x ∈ locale.grammar.invertedTimes,
    ∃ sign ∈ invertedSigns locale, ∃ least ∈ [1, 2],
      ∃ hours ∈ (locale.words .invertedTimeHours).map fun format =>
          .group .hours (Grammar.ofFormat (Grammar.timeTokens locale) format),
        (hours.captures .minute).isEmpty = true ∧
          x = (invertedPattern locale least sign.1 hours, sign.2)
  /-- Of an inverted time with its minutes in words no time of day is found. -/
  times_name : ∀ opening ∈ timeOpenings locale, ∀ name ∈ minuteNames locale,
    ∀ sign ∈ invertedSigns locale, ∀ p ∈ locale.grammar.times,
      p.traces? sameLetter true ⟨letters opening ++ (letters name ++ letters sign.1), []⟩ =
        some []
  /-- The minutes of an inverted time are the hour of the time of day that is found. -/
  times_digits : ∀ opening ∈ timeOpenings locale, ∀ count ∈ [1, 2],
    ∀ sign ∈ invertedSigns locale, ∀ p ∈ locale.grammar.times,
      (p.traces? sameLetter true ⟨letters opening ++ (digitSigns count ++ letters sign.1), []⟩).any
        fun found => found.head?.all fun t => t.rest = signRest sign.1 ∧
          t.group? .hour = some (digitSigns count) ∧ t.group? .minute = none ∧
            t.group? .halfDay = none
  /-- Minutes have one or two digits. -/
  invertedTimes : ∀ opening ∈ timeOpenings locale, ∀ x ∈ locale.grammar.invertedTimes,
    (∀ sign ∈ invertedSigns locale,
      x.1.traces? sameLetter true ⟨letters opening ++ letters sign.1, []⟩ = some []) ∧
    x.1.traces? sameLetter true ⟨letters opening ++ digitSigns 3, []⟩ = some []
  /-- Nothing is found behind the minutes of an inverted time where none are missing. -/
  past : ∀ sign ∈ invertedSigns locale, sign.2 = false → signRest sign.1 ≠ [] ∧
    (∀ p ∈ patterns locale.grammar, p.traces? sameLetter true ⟨signRest sign.1, []⟩ = some []) ∧
      ((locale.grammar.onceSpan.1.traces? sameLetter true ⟨signRest sign.1, []⟩).any fun found =>
        found.head?.all (·.rest = signRest sign.1)) = true

instance (locale : Locale) : Decidable (Traced locale) :=
  decidable_of_iff _ (traced_iff locale).symm

theorem traced (locale : Locale) : Traced locale := by
  cases locale <;> decide +kernel

theorem spellings?_invertedTime (locale : Locale) :
    (Pattern.optional (oneOf (locale.longest .timeBefore)) : Pattern Field).spellings? =
        some ((timeOpenings locale).map String.toList) ∧
      (firstOf ((minuteNames locale).map (literal ·.toList)) : Pattern Field).spellings? =
        some ((minuteNames locale).map String.toList) := by
  cases locale <;> decide

theorem settled_invertedTime (locale : Locale) :
    (∀ opening ∈ timeOpenings locale, Settled opening.toList) ∧
      (∀ name ∈ minuteNames locale, Settled name.toList) ∧
        ∀ sign ∈ invertedSigns locale, Settled sign.1.toList := by
  cases locale <;> decide

/-- Digits for minutes are kept from no other place of an inverted time. -/
theorem captures_minute (locale : Locale) :
    ((Grammar.optionalWords (locale.longest .timeAfter)).captures .minute).isEmpty = true ∧
      ((Pattern.optional (oneOf (locale.longest .timeBefore)) : Pattern Field).captures
        .minute).isEmpty = true := by
  cases locale <;> decide

/-- What fits a pattern that keeps nothing under a label has nothing kept under it. -/
theorem find?_kept {p : Pattern Field} {start stop : List Char} {kept : List (Field × Slice)}
    (h : p.Fits sameLetter start stop kept) {label : Field}
    (hnone : (p.captures label).isEmpty = true) : kept.find? (·.1 = label) = none :=
  Option.map_eq_none_iff.1 (@Pattern.Fits.group?_eq_none Field sameLetter p start stop _ label
    ⟨stop, kept⟩ h hnone)

/-- An inverted time begins with its minutes, in digits or in words, and its sign. -/
theorem of_begins_invertedTime {x : Pattern Field × Bool} (hx : x ∈ locale.grammar.invertedTimes)
    (hm : begins x.1 text = some m) : ∃ opening ∈ timeOpenings locale,
      ∃ sign, (sign, x.2) ∈ invertedSigns locale ∧ ∃ tail,
        (∃ digits, (∀ c ∈ digits, isDigit c = true) ∧ m.group? .minute = some digits ∧
          text.map canonical = fill (digitsAt (digits.map canonical)) tail
            (letters opening ++ (digitSigns (digits.map canonical).length ++ letters sign))) ∨
        ∃ name ∈ minuteNames locale, text.map canonical =
          fill (digitsAt []) tail (letters opening ++ (letters name ++ letters sign)) := by
  obtain ⟨sign, hsign, least, -, hours, -, hhours, rfl⟩ := (traced locale).shape x hx
  obtain ⟨hopenings, hnames⟩ := spellings?_invertedTime locale
  obtain ⟨hsettled, hsettledNames, hsettledSigns⟩ := settled_invertedTime locale
  obtain ⟨hafterNone, hopeningNone⟩ := captures_minute locale
  obtain ⟨_, _, _, ⟨_, keptOpening, _, hopening, ⟨_, _, _, ⟨_, keptMinutes, keptHours, hminutes,
    hspelled, rfl⟩, ⟨_, keptAfter, _, hafter, ⟨rfl, rfl⟩, rfl⟩, rfl⟩, rfl⟩, ⟨-, rfl⟩, hgroups⟩ :=
    fits_of_begins hm
  obtain ⟨word, hword, opened, rfl, hopened⟩ := hopening.exists_spelling hopenings
  obtain ⟨opening, hmem, rfl⟩ := List.mem_map.1 hword
  obtain ⟨signed, rest, rfl, hsigned, hbehind⟩ := hspelled.of_spelled (hsettledSigns sign hsign)
  have hopened := Pattern.map_canonical_of_spelling (hsettled opening hmem) hopened
  refine ⟨opening, hmem, sign.1, hsign, rest.map canonical, ?_⟩
  obtain ⟨inner, hminutes | hminutes, rfl⟩ := hminutes
  · obtain ⟨_, _, _, ⟨_, _, _, ⟨_, ⟨⟨digits, hdigits, rfl⟩, rfl⟩, rfl⟩, ⟨rfl, rfl⟩, rfl⟩,
      ⟨rfl, rfl⟩, rfl⟩ := hminutes
    refine .inl ⟨digits, hdigits, ?_, ?_⟩
    rotate_left
    · simp only [fill, List.map_append, map_fill_digitSigns, map_fill_letters, hopened, hsigned,
        List.append_assoc]
    have hnoHours : keptHours.find? (·.1 = Field.minute) = none :=
      find?_kept hbehind (by simpa [Pattern.captures] using hhours)
    simp [Match.group?, hgroups, find?_kept hafter hafterNone, hnoHours, Slice.chars]
  · obtain ⟨word, hword, named, rfl, hnamed⟩ := hminutes.exists_spelling hnames
    obtain ⟨name, hname, rfl⟩ := List.mem_map.1 hword
    have hnamed := Pattern.map_canonical_of_spelling (hsettledNames name hname) hnamed
    exact .inr ⟨name, hname, by simp [fill, hopened, hnamed, hsigned]⟩

end Shape

section Canonical

theorem namesNoDigit_grammar (locale : Locale) :
    locale.grammar.onceSpan.1.namesNoDigit = true ∧
      ∀ p ∈ patterns locale.grammar, p.namesNoDigit = true :=
  List.forall_mem_cons.1 (wellMade locale).namesNoDigit

theorem forall₂_canonical_iff {text other : List Char} :
    List.Forall₂ (fun c d => d = canonical c) text other ↔ other = text.map canonical := by
  constructor
  · intro h
    induction h with
    | nil => rfl
    | cons hc _ ih => rw [hc, ih, List.map_cons]
  · rintro rfl
    exact List.forall₂_map_right_iff.2 (List.forall₂_same.2 fun _ _ => rfl)

/-- A match in a text is the same as a trace in its canonical characters. -/
structure Agrees (chars tail : List Char) (m : Match Field) (t : Trace Field) : Prop where
  rest : m.rest.map canonical = fill (digitsAt chars) tail t.rest
  group (label : Field) : (m.group? label).map (·.map canonical) =
    (t.group? label).map (·.map (Sign.fill (digitsAt chars)))

/-- What is found first in a text is what is traced first in its canonical characters. -/
theorem begins_agrees {p : Pattern Field} (hp : p.namesNoDigit = true) {isOpen : Bool}
    (htail : isOpen = true ∨ tail = []) {signs : List Sign} {chars : List Char}
    (hchars : ∀ c ∈ chars, c ∈ plainDigits)
    (htext : text.map canonical = fill (digitsAt chars) tail signs) {found : List (Trace Field)}
    (htraces : p.traces? sameLetter isOpen ⟨signs, []⟩ = some found) :
    Option.Rel (Agrees chars tail) (begins p text) found.head? := by
  have halike : List.Forall₂ (fun c d => d = canonical c) text (text.map canonical) :=
    forall₂_canonical_iff.2 rfl
  have hfirst := Pattern.first?_alike (Pattern.blind_canonical hp) halike
  have hmatches : p.matches? sameLetter ⟨text.map canonical, []⟩ =
      found.map (Trace.fill (digitsAt chars) tail) := by
    rw [htext]
    exact Pattern.matches?_fill _ tail (digitsAt_mem hchars) htail htraces
  rw [begins]
  generalize p.first? sameLetter text = result at hfirst ⊢
  rw [Pattern.first?, hmatches, List.head?_map] at hfirst
  cases htrace : found.head? with
  | none =>
    rw [htrace] at hfirst
    cases hfirst
    exact .none
  | some t =>
    rw [htrace, Option.map_some] at hfirst
    cases hfirst with | some hsame =>
    refine .some ⟨(forall₂_canonical_iff.1 hsame.rest).symm, fun label => ?_⟩
    rw [← Trace.group?_fill]
    have hgroup := hsame.group? label
    generalize Match.group? _ label = kept, (t.fill (digitsAt chars) tail).group? label = kept'
      at hgroup
    cases hgroup with
    | none => rfl
    | some hkept => rw [Option.map_some, forall₂_canonical_iff.1 hkept]

/-- What is traced in the canonical characters of a text is found in the text. -/
theorem begins_of_traces {p : Pattern Field} (hp : p.namesNoDigit = true) {signs : List Sign}
    {chars : List Char} (hchars : ∀ c ∈ chars, c ∈ plainDigits)
    (htext : text.map canonical = fill (digitsAt chars) tail signs) {found : List (Trace Field)}
    (htraces : p.traces? sameLetter true ⟨signs, []⟩ = some found) (hm : begins p text = some m) :
    ∃ t, found.head? = some t ∧ m.rest.map canonical = fill (digitsAt chars) tail t.rest ∧
      ∀ label, (m.group? label).map (·.map canonical) =
        (t.group? label).map (·.map (Sign.fill (digitsAt chars))) := by
  have hfirst := begins_agrees hp (.inl rfl) hchars htext htraces
  rw [hm] at hfirst
  cases htrace : found.head? with
  | none =>
    rw [htrace] at hfirst
    cases hfirst
  | some t =>
    rw [htrace] at hfirst
    cases hfirst with | some hagrees => exact ⟨t, rfl, hagrees.rest, hagrees.group⟩

/-- A pattern without traces fits no text with these canonical characters. -/
theorem begins_eq_none {p : Pattern Field} (hp : p.namesNoDigit = true) {signs : List Sign}
    {chars : List Char} (hchars : ∀ c ∈ chars, c ∈ plainDigits)
    (htext : text.map canonical = fill (digitsAt chars) tail signs)
    (htraces : p.traces? sameLetter true ⟨signs, []⟩ = some []) : begins p text = none := by
  cases hm : begins p text with
  | none => rfl
  | some m =>
    obtain ⟨t, hnone, -⟩ := begins_of_traces hp hchars htext htraces hm
    cases hnone

end Canonical

section Silence

variable {α β : Type}

theorem firstRead_eq_none {read : α → Match Field → Except Failure (Option β)}
    {patterns : List (Pattern Field × α)} (h : ∀ x ∈ patterns, begins x.1 text = none) :
    firstRead read text patterns = .ok none := by
  induction patterns with
  | nil => rfl
  | cons x rest ih =>
    obtain ⟨hfirst, hrest⟩ := List.forall_mem_cons.1 h
    obtain ⟨p, info⟩ := x
    simp only [firstRead, hfirst]
    exact ih hrest

theorem firstPart_eq_none {read : α → Match Field → Except Failure (Option Part)}
    {patterns : List (Pattern Field × α)} (h : ∀ x ∈ patterns, begins x.1 text = none) :
    firstPart patterns text read = .ok none := by
  rw [firstPart, firstRead_eq_none h]
  rfl

/-- Where the text begins with no pattern of a kind, nothing of the kind is found. -/
theorem ofKind_eq_none_of {g : Grammar} {kind : Kind}
    (h : ∀ p ∈ patternsOf g kind, begins p text = none)
    (hspan : ∀ m, begins g.onceSpan.1 text = some m → begins g.onceSpan.2 m.rest = none) :
    ofKind kind g text = .ok none := by
  have hof {α : Type} {others : List (Pattern Field × α)}
      (hothers : ∀ p ∈ others.map (·.1), begins p text = none)
      (read : α → Match Field → Except Failure (Option Part)) :
      firstPart others text read = .ok none :=
    firstPart_eq_none (List.forall_mem_map.1 hothers)
  cases kind with
  | time => exact hof (by simpa [patternsOf] using h) _
  | invertedTime => exact hof h _
  | date => exact hof h _
  | monthDay => exact hof h _
  | weekday => exact hof h _
  | month => exact hof h _
  | year => exact @hof _ [(g.year, ())] h _
  | keyword => exact hof h _
  | limiter => exact hof h _
  | span =>
    have hopening := (List.forall_mem_cons.1 h).2
    have honce : spanAfter g g.onceSpan.1 g.onceSpan.2 false text = .ok none := by
      cases hbegins : begins g.onceSpan.1 text with
      | none => simp [spanAfter, hbegins]
      | some m => simp [spanAfter, hbegins, counts, hspan m hbegins]
    have hloop : ∀ opening item, g.loopSpan = (some opening, item) →
        spanAfter g opening item true text = .ok none := fun opening item heq => by
      simp [spanAfter, hopening opening (by simp [heq])]
    simp only [ofKind, span]
    cases hspans : g.loopSpan with
    | mk opening item =>
      cases opening with
      | none => simpa using honce
      | some opening => simpa [hloop opening item hspans] using honce

/-- Where the text begins with no pattern, nothing is found. -/
theorem ofKind_eq_none {g : Grammar} (h : ∀ p ∈ patterns g, begins p text = none)
    (hspan : ∀ m, begins g.onceSpan.1 text = some m → begins g.onceSpan.2 m.rest = none)
    (kind : Kind) : ofKind kind g text = .ok none :=
  ofKind_eq_none_of (fun p hp => h p (patternsOf_subset g kind hp)) hspan

end Silence

section Apart

theorem mem_patterns_of_invertedTimes {g : Grammar} {x : Pattern Field × Bool}
    (hx : x ∈ g.invertedTimes) : x.1 ∈ patterns g := by
  have hmem : x.1 ∈ g.invertedTimes.map (·.1) := List.mem_map_of_mem hx
  simp only [patterns, List.mem_append]
  tauto

theorem mem_patterns_of_times {g : Grammar} {p : Pattern Field} (hp : p ∈ g.times) :
    p ∈ patterns g := by
  simp only [patterns, List.mem_append]
  tauto

/-- The minutes of an inverted time have one or two digits. -/
theorem length_minutes {x : Pattern Field × Bool} (hx : x ∈ locale.grammar.invertedTimes)
    (hm : begins x.1 text = some m) {opening : String} (hopening : opening ∈ timeOpenings locale)
    {sign : String × Bool} (hsign : sign ∈ invertedSigns locale) {chars : List Char}
    (hchars : ∀ c ∈ chars, c ∈ plainDigits) (htext : text.map canonical = fill (digitsAt chars) tail
      (letters opening ++ (digitSigns chars.length ++ letters sign.1))) :
    chars.length ∈ [1, 2] := by
  obtain ⟨hsigns, hlong⟩ := (traced locale).invertedTimes opening hopening x hx
  have hpattern := (namesNoDigit_grammar locale).2 x.1 (mem_patterns_of_invertedTimes hx)
  obtain _ | ⟨a, _ | ⟨b, _ | ⟨c, more⟩⟩⟩ := chars
  · have hnone := begins_eq_none hpattern hchars htext (hsigns sign hsign)
    cases hm.symm.trans hnone
  · exact List.mem_cons_self ..
  · exact List.mem_of_mem_tail (List.mem_singleton_self _)
  · have hfirst : text.map canonical = fill (digitsAt (a :: b :: c :: more))
        (more ++ (sign.1.toList ++ tail)) (letters opening ++ digitSigns 3) := by
      simp only [htext, fill, List.map_append, map_fill_digitSigns, map_fill_letters,
        List.append_assoc]
      rfl
    cases hm.symm.trans (begins_eq_none hpattern hchars hfirst hlong)

/-- The time of day that is found where an inverted time begins has its minutes for the hour. -/
theorem of_time_invertedTime {opening : String} (hopening : opening ∈ timeOpenings locale)
    {sign : String × Bool} (hsign : sign ∈ invertedSigns locale) {chars : List Char}
    (hchars : ∀ c ∈ chars, c ∈ plainDigits) (hlength : chars.length ∈ [1, 2])
    (htext : text.map canonical = fill (digitsAt chars) tail
      (letters opening ++ (digitSigns chars.length ++ letters sign.1)))
    {found : Found} (h : time locale.grammar text = .ok (some found)) :
    ∃ clock, found.part = ofPoint (.time clock false) ∧
      TimeOfDay.of? (digitsValue chars) 0 = some clock ∧
      found.rest.map canonical = fill (digitsAt chars) tail (signRest sign.1) := by
  obtain ⟨x, hx, m, hm, hread, hrest⟩ := of_firstPart h
  obtain ⟨p, hp, rfl⟩ := List.mem_map.1 hx
  have htraces := (traced locale).times_digits opening hopening _ hlength sign hsign p hp
  obtain ⟨found', htraces, hall⟩ := (Option.any_eq_true _ _).1 htraces
  obtain ⟨t, hhead, hmrest, hgroups⟩ := begins_of_traces
    ((namesNoDigit_grammar locale).2 p (mem_patterns_of_times hp)) hchars htext htraces hm
  simp only [hhead, Option.all_some, decide_eq_true_eq] at hall
  obtain ⟨htrest, hhour, hminute, hhalf⟩ := hall
  have hkept := hgroups .hour
  have hnoMinute := hgroups .minute
  have hnoHalf := hgroups .halfDay
  rw [hhour, Option.map_some, map_fill_digitSigns] at hkept
  rw [hminute, Option.map_none, Option.map_eq_none_iff] at hnoMinute
  rw [hhalf, Option.map_none, Option.map_eq_none_iff] at hnoHalf
  obtain ⟨kept, hfound, rfl⟩ := Option.map_eq_some_iff.1 hkept
  have hhourOf : hourOf locale.grammar m = some (digitsValue kept) := by
    simp [hourOf, shortNumber?, hfound, hnoHalf]
  have hnoNumber : shortNumber? m .minute = none := by rw [shortNumber?, hnoMinute]; rfl
  obtain ⟨hour, hof, hread⟩ := Option.bind_eq_some_iff.1 (Except.ok.inj hread)
  obtain ⟨clock, hclock, hpart⟩ := Option.bind_eq_some_iff.1 hread
  obtain rfl : digitsValue kept = hour := Option.some.inj (hhourOf.symm.trans hof)
  rw [hnoNumber] at hclock
  refine ⟨clock, (Option.some.inj hpart).symm, ?_, ?_⟩
  · rw [Text.digitsValue_map_canonical]
    exact hclock
  · rw [← hrest, hmrest, htrest]

/-- No time of day is found where the minutes of an inverted time are in words. -/
theorem time_eq_none {opening name : String} (hopening : opening ∈ timeOpenings locale)
    (hname : name ∈ minuteNames locale) {sign : String × Bool} (hsign : sign ∈ invertedSigns locale)
    (htext : text.map canonical =
      fill (digitsAt []) tail (letters opening ++ (letters name ++ letters sign.1))) :
    time locale.grammar text = .ok none := by
  have hnoDigits : ∀ c ∈ ([] : List Char), c ∈ plainDigits := nofun
  refine firstPart_eq_none fun x hx => ?_
  obtain ⟨p, hp, rfl⟩ := List.mem_map.1 hx
  have hpattern := (namesNoDigit_grammar locale).2 p (mem_patterns_of_times hp)
  exact begins_eq_none hpattern hnoDigits htext
    ((traced locale).times_name opening hopening name hname sign hsign p hp)

/-- Behind the minutes of an inverted time of which none are missing nothing can be read. -/
theorem chains_eq_nil {sign : String} (hsign : (sign, false) ∈ invertedSigns locale)
    {chars : List Char} (hchars : ∀ c ∈ chars, c ∈ plainDigits)
    (htext : text.map canonical = fill (digitsAt chars) tail (signRest sign)) :
    chains locale.grammar text = [] := by
  obtain ⟨hne, htraces, hopening⟩ := (traced locale).past _ hsign rfl
  obtain ⟨hnamesOnce, hnames⟩ := namesNoDigit_grammar locale
  have hsilent : ∀ {rest : List Char}, rest.map canonical = fill (digitsAt chars) tail
      (signRest sign) → ∀ p ∈ patterns locale.grammar, begins p rest = none :=
    fun hrest p hp => begins_eq_none (hnames p hp) hchars hrest (htraces p hp)
  have hitem : locale.grammar.onceSpan.2 ∈ patterns locale.grammar := by
    simp only [patterns, List.mem_append, List.mem_cons]
    tauto
  have hnone := ofKind_eq_none (hsilent htext) fun m hm => by
    obtain ⟨found, hfound, hall⟩ := (Option.any_eq_true _ _).1 hopening
    obtain ⟨t, hhead, hmrest, -⟩ := begins_of_traces hnamesOnce hchars htext hfound hm
    rw [hhead, Option.all_some, decide_eq_true_eq] at hall
    exact hsilent (hall ▸ hmrest) _ hitem
  refine List.eq_nil_iff_forall_not_mem.2 fun chain hchain => ?_
  obtain ⟨rfl, -⟩ | ⟨kind, found, -, hfound, -⟩ := mem_chains_iff.1 hchain
  · simp [fill, hne] at htext
  · rw [hnone kind] at hfound
    cases hfound

/-- Where a text begins with a time of day and with an inverted time, these are different times, or
nothing can be read behind the time of day. -/
theorem time_ne_invertedTime {found other : Found} {clock clock' : TimeOfDay}
    (htime : time locale.grammar text = .ok (some found))
    (hinverted : invertedTime locale.grammar text = .ok (some other))
    (hclock : found.part = ofPoint (.time clock false))
    (hclock' : other.part = ofPoint (.time clock' true)) :
    clock ≠ clock' ∨ chains locale.grammar found.rest = [] := by
  obtain ⟨x, hx, m, hm, hread, -⟩ := of_firstPart hinverted
  obtain ⟨opening, hopening, sign, hsign, tail, hminutes⟩ := of_begins_invertedTime hx hm
  obtain ⟨digits, hdigits, hgroup, htext⟩ | ⟨name, hname, htext⟩ := hminutes
  · have hchars : ∀ c ∈ digits.map canonical, c ∈ plainDigits :=
      List.forall_mem_map.2 fun c hc => Text.canonical_mem_plainDigits (hdigits c hc)
    have hlength := length_minutes hx hm hopening hsign hchars htext
    obtain ⟨clock₁, hpart, hof, hrest⟩ :=
      of_time_invertedTime hopening hsign hchars hlength htext htime
    obtain ⟨p, _ | _⟩ := x
    · exact .inr (chains_eq_nil hsign hchars hrest)
    · left
      rintro rfl
      have hnumber : shortNumber? m .minute = some (digitsValue digits) := by
        rw [shortNumber?, hgroup]
        rfl
      cases hhour : hourOf locale.grammar m with
      | none =>
        rw [hhour] at hread
        cases hread
      | some hour =>
        simp only [hhour, hnumber, pure_bind, if_true] at hread
        split at hread
        · cases hread
        · obtain ⟨clock', hof', hpart'⟩ := Option.map_eq_some_iff.1 (Except.ok.inj hread)
          have hsame : ofPoint (.time clock' true) = ofPoint (.time clock true) :=
            hpart'.trans hclock'
          have hsame₁ : ofPoint (.time clock₁ false) = ofPoint (.time clock false) :=
            hpart.symm.trans hclock
          simp only [ofPoint, Part.content.injEq, Content.point.injEq, Point.time.injEq,
            and_true] at hsame hsame₁
          subst hsame hsame₁
          have hzero := TimeOfDay.of_of? hof
          have hmissing := TimeOfDay.of_of? hof'
          rw [Text.digitsValue_map_canonical] at hzero
          omega
  · rw [time_eq_none hopening hname hsign htext] at htime
    cases htime

end Apart

end Recognizer

end TimePhrase
