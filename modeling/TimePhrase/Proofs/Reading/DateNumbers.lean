import TimePhrase.Proofs.Reading.KnownText

/-!
# The numbers of a date

In a text that consists of a date with its year, what each recognizer finds there and behind its
numbers is known from tracing. No part begins between two numbers, and a year alone is read as such.
-/

namespace TimePhrase

open Text (canonical plainDigits sameLetter)

namespace Recognizer

section Shape

/-- As many digits from the given place on. -/
def numberSigns (start count : Nat) : List Sign := (List.range' start count).map .digit

/-- The signs of a year. Its digits are the first, then come those of the month and of the day. -/
def yearNumber : List Sign := numberSigns 0 4

def monthNumber (months : Nat) : List Sign := numberSigns 4 months

def dayNumber (months days : Nat) : List Sign := numberSigns (4 + months) days

/-- What stands behind the day and the sign next to it. -/
def behindDay (sep : Char) (months : Nat) : List Sign :=
  monthNumber months ++ .char sep :: yearNumber

/-- What is left behind a number without the sign next to it. -/
def stuckSigns (sep : Char) (months : Nat) : List (List Sign) :=
  [.char sep :: behindDay sep months, .char sep :: yearNumber]

/-- The words that may stand before a date. -/
def dateOpenings : Locale → List String
  | .english => ["", "on "]
  | .german => [""]

def wholeSigns (opening : String) (sep : Char) (months days : Nat) : List Sign :=
  letters opening ++ (dayNumber months days ++ .char sep :: behindDay sep months)

/-- The date in full is found. -/
def isFull (months days : Nat) (looped : Bool) (t : Trace Field) : Bool :=
  !looped && t.rest = [] && t.group? .day = some (dayNumber months days) &&
    t.group? .month = some (monthNumber months) && t.group? .year = some yearNumber

/-- What is left behind a date without its year. A dot belongs to the number of the month, a hyphen
does not. -/
def behindMonth (sep : Char) : List Sign :=
  if sep = '.' then yearNumber else .char sep :: yearNumber

/-- The date is found without its year. -/
def isShort (sep : Char) (months days : Nat) (looped : Bool) (t : Trace Field) : Bool :=
  !looped && t.rest = behindMonth sep && t.group? .day = some (dayNumber months days) &&
    t.group? .month = some (monthNumber months) && t.group? .year = none &&
      t.group? .shortYear = none

/-- What the patterns of a language find in a year alone, and behind the day of a date. -/
@[mk_iff]
structure TracedNumbers (locale : Locale) : Prop where
  year : Quiet locale.grammar yearNumber ∧
    headsAll yearNumber (locale.grammar.times.map (·, ())) (fun _ _ => false) = true ∧
    headsAll yearNumber locale.grammar.dates (fun _ _ => false) = true ∧
    headsAll yearNumber locale.grammar.monthDays (fun _ _ => false) = true ∧
    (heads? yearNumber [(locale.grammar.year, ())]).any (fun heads => !heads.isEmpty &&
      heads.all fun head => head.2.rest = [] && head.2.group? .year = some yearNumber) = true
  behindDay : ∀ months ∈ [1, 2], Quiet locale.grammar (behindDay '.' months) ∧
    headsAll (behindDay '.' months) (locale.grammar.times.map (·, ())) (fun _ t =>
      (stuckSigns '.' months).contains t.rest) = true ∧
    headsAll (behindDay '.' months) locale.grammar.dates (fun _ _ => false) = true ∧
    headsAll (behindDay '.' months) [(locale.grammar.year, ())] (fun _ _ => false) = true

/-- What the patterns of a language find in a date that is written in full with the given sign
behind its day and its month. -/
@[mk_iff]
structure TracedDates (locale : Locale) (sep : Char) : Prop where
  /-- Nothing begins with the sign between two numbers. -/
  stuck : (∀ kind ∈ kinds, kind ≠ .year → ∀ p ∈ patternsOf locale.grammar kind,
      p.traces? sameLetter true ⟨[.char sep], []⟩ = some []) ∧
    (locale.grammar.onceSpan.1.traces? sameLetter true ⟨[.char sep], []⟩).any (fun found =>
      found.head?.all (·.rest = [.char sep])) = true
  /-- A year is found behind a hyphen, but a negative one. -/
  stuckYear : ∀ months ∈ [1, 2], ∀ signs ∈ stuckSigns sep months,
    headsAll signs [(locale.grammar.year, ())] (fun _ t =>
      (t.group? .year).any (·.head? = some (.char '-'))) = true
  whole : ∀ opening ∈ dateOpenings locale, ∀ months ∈ [1, 2], ∀ days ∈ [1, 2],
    Quiet locale.grammar (wholeSigns opening sep months days) ∧
    headsAll (wholeSigns opening sep months days) (locale.grammar.times.map (·, ())) (fun _ t =>
      (stuckSigns sep months).contains t.rest) = true ∧
    (heads? (wholeSigns opening sep months days) locale.grammar.dates).any (fun heads =>
      heads.head?.any (fun head => isFull months days head.1 head.2) &&
      heads.all (fun head => isFull months days head.1 head.2 ||
        isShort sep months days head.1 head.2) &&
      heads.any (fun head => isShort sep months days head.1 head.2)) = true ∧
    headsAll (wholeSigns opening sep months days) locale.grammar.monthDays (fun _ t =>
      sep = '.' && t.rest = Recognizer.behindDay sep months ||
        (stuckSigns sep months).contains t.rest) = true ∧
    headsAll (wholeSigns opening sep months days) [(locale.grammar.year, ())]
      (fun _ _ => false) = true

instance (locale : Locale) : Decidable (TracedNumbers locale) :=
  decidable_of_iff _ (tracedNumbers_iff locale).symm

instance (locale : Locale) (sep : Char) : Decidable (TracedDates locale sep) :=
  decidable_of_iff _ (tracedDates_iff locale sep).symm

-- All at once, so that the patterns of a language are made only once.
theorem tracedNumbers_and_tracedDates (locale : Locale) :
    TracedNumbers locale ∧ TracedDates locale '.' ∧ TracedDates locale '-' := by
  cases locale <;> decide +kernel

theorem tracedNumbers (locale : Locale) : TracedNumbers locale :=
  (tracedNumbers_and_tracedDates locale).1

theorem tracedDates (locale : Locale) {sep : Char} (hsep : sep ∈ ['.', '-']) :
    TracedDates locale sep := by
  obtain ⟨-, hdot, hhyphen⟩ := tracedNumbers_and_tracedDates locale
  simp only [List.mem_cons, List.not_mem_nil, or_false] at hsep
  rcases hsep with rfl | rfl
  · exact hdot
  · exact hhyphen

end Shape

section Chains

variable {locale : Locale} {text chars : List Char} {signs : List Sign} {sep : Char} {months : Nat}
  {chain : List Part} {m : Match Field} {t : Trace Field}

/-- What is read from a match with a year. -/
def readYear (m : Match Field) : Except Failure (Option Part) := do
  let digits := (m.group? .year).getD []
  let number ← readNumber (digits.filter (· ≠ '-'))
  let inRange := firstYear ≤ number ∧ number ≤ lastYear
  return if digits.head? ≠ some '-' ∧ inRange then some (ofPoint (.year number)) else none

theorem year_eq (g : Grammar) (text : List Char) :
    year g text = firstPart [(g.year, ())] text fun _ => readYear := rfl

/-- A year below zero is none. -/
theorem readYear_of_hyphen (hagrees : Agrees chars [] m t) {signs : List Sign}
    (hgroup : t.group? .year = some signs) (hhyphen : signs.head? = some (.char '-'))
    (part : Part) : readYear m ≠ .ok (some part) := by
  intro hread
  have hkept := hagrees.group .year
  rw [hgroup, Option.map_some, Option.map_eq_some_iff] at hkept
  obtain ⟨digits, hdigits, hcanonical⟩ := hkept
  have hnegative : digits.head? = some '-' := by
    have hsame := congrArg List.head? hcanonical
    rw [List.head?_map, List.head?_map, hhyphen] at hsame
    obtain ⟨c, hc, hcanonical⟩ := Option.map_eq_some_iff.1 hsame
    rw [hc, (Text.canonical_eq_hyphen_iff c).1 hcanonical]
  obtain ⟨number, -, hpart⟩ := bind_eq_ok_iff.1 hread
  simp [hdigits, hnegative] at hpart

/-- The year as a part, if the calendar has it. -/
def yearPart (year : Nat) : Option Part :=
  if firstYear ≤ year ∧ year ≤ lastYear then some (ofPoint (.year year)) else none

theorem yearPart_eq_some_iff {year : Nat} {part : Part} : yearPart year = some part ↔
    (firstYear ≤ year ∧ year ≤ lastYear) ∧ part = ofPoint (.year year) := by
  rw [yearPart, Option.ite_none_right_eq_some, Option.some.injEq, @eq_comm _ part]

theorem readYear_eq (hagrees : Agrees chars [] m t) (hchars : ∀ c ∈ chars, c ∈ plainDigits)
    (hgroup : t.group? .year = some yearNumber) :
    readYear m = .ok (yearPart (valueOf chars yearNumber)) := by
  have hkept := hagrees.group .year
  rw [hgroup, Option.map_some, Option.map_eq_some_iff] at hkept
  obtain ⟨digits, hdigits, hcanonical⟩ := hkept
  have hplain : ∀ c ∈ digits, c ≠ '-' := by
    rintro c hc rfl
    have hmem : canonical '-' ∈ digits.map canonical := List.mem_map_of_mem hc
    rw [hcanonical] at hmem
    obtain ⟨s, hs, hfill⟩ := List.mem_map.1 hmem
    obtain ⟨i, -, rfl⟩ := List.mem_map.1 hs
    have hdigit : canonical '-' ∈ plainDigits := hfill ▸ digitsAt_mem hchars i
    exact absurd hdigit (by decide)
  have hfilter : digits.filter (· ≠ '-') = digits := List.filter_eq_self.2 (by simpa using hplain)
  have hhead : digits.head? ≠ some '-' := fun heq => hplain '-' (List.mem_of_mem_head? heq) rfl
  have hlength : digits.length = 4 := by
    simpa [yearNumber, numberSigns] using congrArg List.length hcanonical
  have hnumber : readNumber digits = .ok (valueOf chars yearNumber) := by
    rw [readNumber, if_neg (by rw [hlength]; decide), valueOf, ← hcanonical,
      Text.digitsValue_map_canonical]
  rw [readYear, hdigits, Option.getD_some, hfilter, hnumber, ok_bind]
  simp only [hhead, ne_eq, not_false_eq_true, true_and]
  rfl

/-- With the sign between two numbers nothing begins but a year. -/
theorem ofKind_stuck (hsep : sep ∈ ['.', '-']) {tail : List Char}
    (hchars : ∀ c ∈ chars, c ∈ plainDigits)
    (htext : text.map canonical = fill (digitsAt chars) tail [.char sep]) {kind : Kind}
    (hkind : kind ≠ .year) : ofKind kind locale.grammar text = .ok none := by
  obtain ⟨htraces, hopening⟩ := (tracedDates locale hsep).stuck
  obtain ⟨hnamesOnce, hnames⟩ := namesNoDigit_grammar locale
  have hnone {rest : List Char}
      (hrest : rest.map canonical = fill (digitsAt chars) tail [.char sep]) {kind : Kind}
      (hkind : kind ≠ .year) : ∀ p ∈ patternsOf locale.grammar kind, begins p rest = none := by
    intro p hp
    exact begins_eq_none (hnames p (patternsOf_subset _ kind hp)) hchars hrest
      (htraces kind (mem_kinds kind) hkind p hp)
  refine ofKind_eq_none_of (hnone htext hkind) fun m hm => ?_
  obtain ⟨found, hfound, hall⟩ := (Option.any_eq_true _ _).1 hopening
  obtain ⟨t, hhead, hrest, -⟩ := begins_of_traces hnamesOnce hchars htext hfound hm
  rw [hhead, Option.all_some, decide_eq_true_eq] at hall
  rw [hall] at hrest
  exact @hnone _ hrest .span (by decide) _ List.mem_cons_self

/-- Between two numbers no part begins. -/
theorem not_mem_chains_stuck (hsep : sep ∈ ['.', '-']) (hmonths : months ∈ [1, 2])
    (hsigns : signs ∈ stuckSigns sep months) (h : Spells chars signs text) :
    chain ∉ chains locale.grammar text := by
  obtain ⟨more, hmore⟩ : ∃ more, signs = .char sep :: more := by
    simp only [stuckSigns, List.mem_cons, List.not_mem_nil, or_false] at hsigns
    rcases hsigns with rfl | rfl <;> exact ⟨_, rfl⟩
  have htext : text.map canonical =
      fill (digitsAt chars) (more.map (Sign.fill (digitsAt chars))) [.char sep] := by
    simpa [fill, hmore] using h.canonical
  intro hchain
  obtain ⟨rfl, -⟩ | ⟨kind, found, -, hfound, -⟩ := mem_chains_iff.1 hchain
  · simp [fill] at htext
  by_cases hkind : kind = .year
  · subst hkind
    obtain ⟨_, t, m, hhyphen, hagrees, hread, -⟩ := h.of_firstPart
      (namesNoDigit_patternsOf locale .year rfl)
      ((tracedDates locale hsep).stuckYear months hmonths _ hsigns) hfound
    obtain ⟨kept, hkept, hhead⟩ := (Option.any_eq_true _ _).1 hhyphen
    exact readYear_of_hyphen hagrees hkept (of_decide_eq_true hhead) found.part hread
  · rw [ofKind_stuck hsep h.digits htext hkind] at hfound
    cases hfound

/-- A year alone is found if the calendar has it. -/
theorem year_yearNumber (h : Spells chars yearNumber text) : year locale.grammar text =
    .ok ((yearPart (valueOf chars yearNumber)).map fun part => ⟨part, []⟩) := by
  obtain ⟨-, -, -, -, hheads⟩ := (tracedNumbers locale).year
  obtain ⟨heads, hheads, hall⟩ := (Option.any_eq_true _ _).1 hheads
  simp only [List.all_eq_true, Bool.and_eq_true, decide_eq_true_eq] at hall
  obtain ⟨hne, hall⟩ := hall
  obtain ⟨answer, hanswer, hrel⟩ := h.firstPart_eq (namesNoDigit_patternsOf locale .year rfl)
    hheads (fun _ => readYear) (fun _ _ => yearPart (valueOf chars yearNumber))
    fun head hhead m hagrees => readYear_eq hagrees h.digits (hall head hhead).2
  rw [year_eq, hanswer]
  cases heads with
  | nil => cases hne
  | cons head others =>
    have hrest := (hall head List.mem_cons_self).1
    cases hpart : yearPart (valueOf chars yearNumber) with
    | none =>
      have hnone : (head :: others).findSome? (fun head => (none : Option (Part × List Sign))) =
          none := by simp
      simp only [hpart, Option.map_none, hnone] at hrel
      cases hrel
      rfl
    | some part =>
      simp only [hpart, Option.map_some, List.findSome?_cons, hrest] at hrel
      cases hrel with | @some found _ hfound =>
      obtain ⟨hfoundPart, hend⟩ := hfound
      obtain ⟨_, rest⟩ := found
      obtain rfl := hfoundPart
      obtain rfl := List.length_eq_zero_iff.1 hend.length_eq
      rfl

/-- A year alone is read as such. -/
theorem mem_chains_year_iff (h : Spells chars yearNumber text) :
    chain ∈ chains locale.grammar text ↔
      ∃ part, yearPart (valueOf chars yearNumber) = some part ∧ chain = [part] := by
  obtain ⟨hquiet, htimes, hdates, hmonthDays, -⟩ := (tracedNumbers locale).year
  have hyear := @year_yearNumber locale _ _ h
  constructor
  · intro hchain
    obtain ⟨kind, hkind, found, rest, hfound, hrest, rfl⟩ :=
      h.of_mem_chains hquiet (by decide) hchain
    simp only [numberKinds, List.mem_cons, List.not_mem_nil, or_false] at hkind
    rcases hkind with rfl | rfl | rfl | rfl
    · exact absurd hfound (h.not_firstPart locale .time (map_times _) htimes)
    · exact absurd hfound (h.not_firstPart locale .date rfl hdates)
    · exact absurd hfound (h.not_firstPart locale .monthDay rfl hmonthDays)
    · rw [ofKind, hyear] at hfound
      obtain ⟨part, hpart, rfl⟩ := Option.map_eq_some_iff.1 (Except.ok.inj hfound)
      have hnil : rest = [] := by simpa [chains] using hrest
      exact ⟨part, hpart, by rw [hnil]⟩
  · rintro ⟨part, hpart, rfl⟩
    rw [hpart] at hyear
    refine mem_chains_iff.2 (.inr ⟨.year, ⟨part, []⟩, [], hyear, ?_, by simp [chains], rfl⟩)
    rw [h.length_eq]
    exact Nat.zero_lt_succ 3

/-- Behind the day of the month that a date begins with, its month is read as a day of the month
once more. -/
theorem of_mem_chains_behindDay (hmonths : months ∈ [1, 2])
    (h : Spells chars (behindDay '.' months) text) (hchain : chain ∈ chains locale.grammar text) :
    ∃ p rest, p.kind = .monthDay ∧ chain = p :: rest := by
  obtain ⟨hquiet, htimes, hdates, hyear⟩ := (tracedNumbers locale).behindDay months hmonths
  obtain ⟨kind, hkind, found, rest, hfound, hrest, rfl⟩ :=
    h.of_mem_chains hquiet (by simp [behindDay]) hchain
  simp only [numberKinds, List.mem_cons, List.not_mem_nil, or_false] at hkind
  rcases hkind with rfl | rfl | rfl | rfl
  · obtain ⟨_, t, _, hstuck, -, -, hspells⟩ :=
      h.of_firstPart (namesNoDigit_patternsOf locale .time (map_times _)) htimes hfound
    have hsigns := List.contains_iff_mem.1 hstuck
    exact absurd hrest (not_mem_chains_stuck (by decide) hmonths hsigns hspells)
  · exact absurd hfound (h.not_firstPart locale .date rfl hdates)
  · exact ⟨found.part, rest, (of_ofKind hfound).2.1, rfl⟩
  · exact absurd hfound (h.not_firstPart locale .year rfl hyear)

/-- What is read from the numbers of a date. -/
def readDate (looped : Bool) (number? : Field → Option Nat) : Option Part := do
  let day ← number? .day
  let month ← number? .month
  let year := match number? .year with
    | some year => some year
    | none => (number? .shortYear).map (2000 + ·)
  if IsDate (year.getD someLeapYear) month day then
    return ofPoint (.date day month (year.map Int.ofNat) looped)
  else none

theorem date_eq (g : Grammar) (text : List Char) : date g text =
    firstPart g.dates text fun looped m => .ok (readDate looped (shortNumber? m)) := rfl

end Chains

end Recognizer

end TimePhrase
