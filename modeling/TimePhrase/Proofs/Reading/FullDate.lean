import TimePhrase.Proofs.Occurrence.Search
import TimePhrase.Proofs.Reading.DateNumbers
import TimePhrase.Proofs.Reading.Distinct

/-!
# Dates in full

A date that is written with its year is read as that date, if the calendar has it. Otherwise its
numbers are offered to the other recognizers. They make a day of the month of the day and one of the
month, which do not go together, or a date without a year, which only 29 February can be where the
date in full is none.
-/

namespace TimePhrase

open Text (canonical digitsValue plainDigits isDigit)

/-- A date that is written in digits. -/
structure WrittenDate where
  dayDigits : List Char
  monthDigits : List Char
  yearDigits : List Char
  digits : ∀ c ∈ yearDigits ++ (monthDigits ++ dayDigits), isDigit c = true
  length_day : dayDigits.length ∈ [1, 2]
  length_month : monthDigits.length ∈ [1, 2]
  length_year : yearDigits.length = 4

namespace WrittenDate

open Recognizer

variable (date : WrittenDate) {reader : Reader} {locale : Locale} {opening : String} {sep : Char}

def day : Nat := digitsValue date.dayDigits

def month : Nat := digitsValue date.monthDigits

def year : Nat := digitsValue date.yearDigits

/-- The text of the date, behind some words and with a sign behind its day and its month. -/
def text (opening : String) (sep : Char) : String :=
  .ofList <|
    opening.toList ++ (date.dayDigits ++ sep :: (date.monthDigits ++ sep :: date.yearDigits))

/-- The date in full. -/
def full : Part := ofPoint (.date date.day date.month (some (date.year : Int)) false)

/-- The date without its year. -/
def short : Part := ofPoint (.date date.day date.month none false)

/-- The year of the date alone. -/
def inYear : Part := ofPoint (.year date.year)

/-- The calendar has the date. -/
abbrev IsReal : Prop := IsDate date.year date.month date.day

/-- The calendar has the date without its year, in some year. -/
abbrev IsDayOfYear : Prop := IsDate someLeapYear date.month date.day

section Digits

/-- The digits in the order in which they are numbered. -/
def chars : List Char := (date.yearDigits ++ (date.monthDigits ++ date.dayDigits)).map canonical

theorem chars_mem : ∀ c ∈ date.chars, c ∈ plainDigits :=
  List.forall_mem_map.2 fun c hc => Text.canonical_mem_plainDigits (date.digits c hc)

theorem map_fill_numberSigns {chars : List Char} {start count : Nat}
    (h : start + count ≤ chars.length) :
    (numberSigns start count).map (Sign.fill (digitsAt chars)) = (chars.drop start).take count := by
  refine List.ext_getElem (by simp [numberSigns]; omega) fun i hi hi' => ?_
  have hlt : i < count := by simpa [numberSigns] using hi
  simp [numberSigns, Sign.fill, digitsAt, show start + i < chars.length by omega]

theorem map_fill_yearNumber :
    yearNumber.map (Sign.fill (digitsAt date.chars)) = date.yearDigits.map canonical := by
  rw [yearNumber, map_fill_numberSigns (by simp [chars, date.length_year])]
  simp [chars, date.length_year]

theorem map_fill_monthNumber : (monthNumber date.monthDigits.length).map
    (Sign.fill (digitsAt date.chars)) = date.monthDigits.map canonical := by
  rw [monthNumber, map_fill_numberSigns (by simp [chars, date.length_year])]
  simp [chars, date.length_year]

theorem map_fill_dayNumber : (dayNumber date.monthDigits.length date.dayDigits.length).map
    (Sign.fill (digitsAt date.chars)) = date.dayDigits.map canonical := by
  have hbehind : (date.yearDigits.map canonical).drop (4 + date.monthDigits.length) = [] :=
    List.drop_of_length_le (by simp [date.length_year])
  rw [dayNumber, map_fill_numberSigns (by simp [chars, date.length_year]; omega)]
  simp [chars, date.length_year, List.drop_append, hbehind]

theorem valueOf_yearNumber : valueOf date.chars yearNumber = date.year := by
  rw [valueOf, map_fill_yearNumber, Text.digitsValue_map_canonical, year]

theorem valueOf_monthNumber :
    valueOf date.chars (monthNumber date.monthDigits.length) = date.month := by
  rw [valueOf, map_fill_monthNumber, Text.digitsValue_map_canonical, month]

theorem valueOf_dayNumber :
    valueOf date.chars (dayNumber date.monthDigits.length date.dayDigits.length) = date.day := by
  rw [valueOf, map_fill_dayNumber, Text.digitsValue_map_canonical, day]

/-- The signs of the text of the date. -/
def signs (opening : String) (sep : Char) : List Sign :=
  wholeSigns opening sep date.monthDigits.length date.dayDigits.length

theorem settled_dateOpenings :
    ∀ opening ∈ dateOpenings locale, opening.toList.map canonical = opening.toList := by
  cases locale <;> decide

theorem spells (hopening : opening ∈ dateOpenings locale) (hsep : sep ∈ ['.', '-']) :
    Spells date.chars (date.signs opening sep) (date.text opening sep).toList := by
  have hsettled : ∀ sep ∈ ['.', '-'], canonical sep = sep := List.all_iff_forall_prop.1 (by decide)
  refine ⟨date.chars_mem, ?_⟩
  simp [text, signs, wholeSigns, behindDay, fill, Sign.fill, hsettled sep hsep,
    settled_dateOpenings opening hopening, map_fill_yearNumber, map_fill_monthNumber,
    map_fill_dayNumber]

end Digits

section Readings

theorem readDate_of_isFull {looped : Bool} {t : Trace Field}
    (h : isFull date.monthDigits.length date.dayDigits.length looped t = true) : t.rest = [] ∧
      readDate looped (fun field => (t.group? field).map (valueOf date.chars)) =
        if date.IsReal then some date.full else none := by
  simp only [isFull, Bool.and_eq_true, Bool.not_eq_true', decide_eq_true_eq] at h
  obtain ⟨⟨⟨⟨rfl, hrest⟩, hday⟩, hmonth⟩, hyear⟩ := h
  refine ⟨hrest, ?_⟩
  simp [readDate, hday, hmonth, hyear, valueOf_dayNumber, valueOf_monthNumber, valueOf_yearNumber,
    full]

theorem readDate_of_isShort {looped : Bool} {t : Trace Field}
    (h : isShort sep date.monthDigits.length date.dayDigits.length looped t = true) :
    t.rest = behindMonth sep ∧
      readDate looped (fun field => (t.group? field).map (valueOf date.chars)) =
        if date.IsDayOfYear then some date.short else none := by
  simp only [isShort, Bool.and_eq_true, Bool.not_eq_true', decide_eq_true_eq] at h
  obtain ⟨⟨⟨⟨⟨rfl, hrest⟩, hday⟩, hmonth⟩, hyear⟩, hshortYear⟩ := h
  refine ⟨hrest, ?_⟩
  simp [readDate, hday, hmonth, hyear, hshortYear, valueOf_dayNumber, valueOf_monthNumber, short]

/-- The date that the text begins with, and what is left behind it. -/
def begun? (sep : Char) : Option (Part × List Sign) :=
  if date.IsReal then some (date.full, [])
  else if date.IsDayOfYear then some (date.short, behindMonth sep)
  else none

theorem findSome?_heads {heads : List (Bool × Trace Field)}
    (hfirst : heads.head?.any (fun head =>
      isFull date.monthDigits.length date.dayDigits.length head.1 head.2) = true)
    (hall : ∀ head ∈ heads,
      isFull date.monthDigits.length date.dayDigits.length head.1 head.2 = true ∨
      isShort sep date.monthDigits.length date.dayDigits.length head.1 head.2 = true)
    (hshort : ∃ head ∈ heads,
      isShort sep date.monthDigits.length date.dayDigits.length head.1 head.2 = true) :
    heads.findSome? (fun head => (readDate head.1 fun field =>
      (head.2.group? field).map (valueOf date.chars)).map fun part => (part, head.2.rest)) =
        date.begun? sep := by
  unfold begun?
  by_cases hdate : date.IsReal
  · cases heads with
    | nil => cases hfirst
    | cons head others =>
      obtain ⟨hrest, hread⟩ := date.readDate_of_isFull hfirst
      rw [List.findSome?_cons, hread, if_pos hdate, if_pos hdate, Option.map_some, hrest]
  · rw [if_neg hdate]
    have hvalue : ∀ head ∈ heads, ∀ found, (readDate head.1 fun field =>
        (head.2.group? field).map (valueOf date.chars)).map (fun part => (part, head.2.rest)) =
          some found → date.IsDayOfYear ∧
            found = (date.short, behindMonth sep) := by
      intro head hhead found hfound
      rcases hall head hhead with hhead | hhead
      · rw [(date.readDate_of_isFull hhead).2, if_neg hdate] at hfound
        cases hfound
      · obtain ⟨hrest, hread⟩ := date.readDate_of_isShort hhead
        rw [hread] at hfound
        by_cases hleap : date.IsDayOfYear
        · rw [if_pos hleap, hrest] at hfound
          exact ⟨hleap, (Option.some.inj hfound).symm⟩
        · rw [if_neg hleap] at hfound
          cases hfound
    generalize hresult : heads.findSome? _ = result
    cases result with
    | some found =>
      obtain ⟨head, hhead, hfound⟩ := List.exists_of_findSome?_eq_some hresult
      obtain ⟨hleap, rfl⟩ := hvalue head hhead found hfound
      rw [if_pos hleap]
    | none =>
      obtain ⟨head, hhead, hshort⟩ := hshort
      have hnone := List.findSome?_eq_none_iff.1 hresult head hhead
      rw [(date.readDate_of_isShort hshort).2, Option.map_eq_none_iff] at hnone
      rw [if_neg fun hleap => by simp [if_pos hleap] at hnone]

/-- What is found of a date is the date in full, if the calendar has it, or else the date without
its year, if the calendar has that in some year. -/
theorem date_text (hopening : opening ∈ dateOpenings locale) (hsep : sep ∈ ['.', '-']) :
    ∃ answer, Recognizer.date locale.grammar (date.text opening sep).toList = .ok answer ∧
      Option.Rel (fun found head => found.part = head.1 ∧ Spells date.chars head.2 found.rest)
        answer (date.begun? sep) := by
  have h := date.spells hopening hsep
  obtain ⟨-, -, hheads, -⟩ := (tracedDates locale hsep).whole opening hopening _
    date.length_month _ date.length_day
  obtain ⟨heads, hheads, hcondition⟩ := (Option.any_eq_true _ _).1 hheads
  simp only [Bool.and_eq_true, List.all_eq_true, Bool.or_eq_true, List.any_eq_true] at hcondition
  obtain ⟨⟨hfirst, hall⟩, hshort⟩ := hcondition
  rw [← date.findSome?_heads hfirst hall hshort, date_eq]
  refine h.firstPart_eq (namesNoDigit_patternsOf locale .date rfl) hheads _ (fun looped t =>
    readDate looped fun field => (t.group? field).map (valueOf date.chars)) ?_
  intro head _ m hagrees
  rw [funext hagrees.shortNumber?]

theorem length_text (opening : String) (sep : Char) : (date.text opening sep).toList.length =
    opening.toList.length + date.dayDigits.length + date.monthDigits.length + 6 := by
  simp [text, date.length_year]
  omega

/-- Behind the date in full nothing is left, and behind the date without its year the year is read,
unless there is a hyphen before it. -/
theorem of_mem_chains_begun (hsep : sep ∈ ['.', '-']) {found : Found} {rest : List Part}
    (hbegun : Option.Rel
      (fun found head => found.part = head.1 ∧ Spells date.chars head.2 found.rest)
      (some found) (date.begun? sep)) (hrest : rest ∈ chains locale.grammar found.rest) :
    (date.IsReal ∧ found.part :: rest = [date.full]) ∨
    (¬ date.IsReal ∧ sep = '.' ∧ date.IsDayOfYear ∧
      (firstYear ≤ date.year ∧ date.year ≤ lastYear) ∧
        found.part :: rest = [date.short, date.inYear]) := by
  unfold begun? at hbegun
  by_cases hdate : date.IsReal
  · rw [if_pos hdate] at hbegun
    cases hbegun with | some hfound =>
    obtain ⟨hpart, hspells⟩ := hfound
    rw [List.length_eq_zero_iff.1 hspells.length_eq] at hrest
    have hnil : rest = [] := by simpa [chains] using hrest
    exact .inl ⟨hdate, by rw [hpart, hnil]⟩
  rw [if_neg hdate] at hbegun
  by_cases hleap : date.IsDayOfYear
  · rw [if_pos hleap] at hbegun
    cases hbegun with | some hfound =>
    obtain ⟨hpart, hspells⟩ := hfound
    dsimp only at hpart hspells
    by_cases hdot : sep = '.'
    · rw [behindMonth, if_pos hdot] at hspells
      obtain ⟨part, hyear, rfl⟩ := (mem_chains_year_iff hspells).1 hrest
      rw [valueOf_yearNumber] at hyear
      obtain ⟨hrange, rfl⟩ := yearPart_eq_some_iff.1 hyear
      exact .inr ⟨hdate, hdot, hleap, hrange, by rw [hpart, inYear]⟩
    · rw [behindMonth, if_neg hdot] at hspells
      have hstuck : .char sep :: yearNumber ∈ stuckSigns sep date.monthDigits.length :=
        List.mem_of_mem_tail (List.mem_singleton_self _)
      exact absurd hrest (not_mem_chains_stuck hsep date.length_month hstuck hspells)
  · rw [if_neg hleap] at hbegun
    cases hbegun

/-- The date in full is a reading, the date without its year and the year may be one, and otherwise
two days of the month are named. -/
theorem of_mem_chains_text (hopening : opening ∈ dateOpenings locale) (hsep : sep ∈ ['.', '-'])
    {chain : List Part} (hchain : chain ∈ chains locale.grammar (date.text opening sep).toList) :
    ((date.IsReal ∧ chain = [date.full]) ∨
      (¬ date.IsReal ∧ sep = '.' ∧ date.IsDayOfYear ∧
        (firstYear ≤ date.year ∧ date.year ≤ lastYear) ∧ chain = [date.short, date.inYear])) ∨
    ∃ p q rest, p.kind = .monthDay ∧ q.kind = .monthDay ∧ chain = p :: q :: rest := by
  have h := date.spells hopening hsep
  obtain ⟨hquiet, htimes, -, hmonthDays, hyear⟩ := (tracedDates locale hsep).whole opening hopening
    _ date.length_month _ date.length_day
  obtain ⟨kind, hkind, found, rest, hfound, hrest, rfl⟩ :=
    h.of_mem_chains hquiet (by simp [signs, wholeSigns]) hchain
  have hstuck {signs : List Sign} (hspells : Spells date.chars signs found.rest)
      (hsigns : (stuckSigns sep date.monthDigits.length).contains signs = true) : False :=
    not_mem_chains_stuck hsep date.length_month (List.contains_iff_mem.1 hsigns) hspells hrest
  simp only [numberKinds, List.mem_cons, List.not_mem_nil, or_false] at hkind
  rcases hkind with rfl | rfl | rfl | rfl
  · obtain ⟨_, t, _, hsigns, -, -, hspells⟩ :=
      h.of_firstPart (namesNoDigit_patternsOf locale .time (map_times _)) htimes hfound
    exact (hstuck hspells hsigns).elim
  · obtain ⟨answer, hanswer, hbegun⟩ := date.date_text hopening hsep
    obtain rfl := Except.ok.inj (hanswer.symm.trans hfound)
    exact .inl (date.of_mem_chains_begun hsep hbegun hrest)
  · obtain ⟨_, t, _, hbehind, -, -, hspells⟩ :=
      h.of_firstPart (namesNoDigit_patternsOf locale .monthDay rfl) hmonthDays hfound
    rw [Bool.or_eq_true, Bool.and_eq_true, decide_eq_true_eq, decide_eq_true_eq] at hbehind
    rcases hbehind with ⟨rfl, hbehind⟩ | hsigns
    · rw [hbehind] at hspells
      obtain ⟨q, others, hq, rfl⟩ := of_mem_chains_behindDay date.length_month hspells hrest
      exact .inr ⟨found.part, q, others, (of_ofKind hfound).2.1, hq, rfl⟩
    · exact (hstuck hspells hsigns).elim
  · exact absurd hfound (h.not_firstPart locale .year rfl hyear)

/-- What the text begins with is found and the rest is read behind it. -/
theorem mem_chains_text (hopening : opening ∈ dateOpenings locale) (hsep : sep ∈ ['.', '-'])
    {part : Part} {rest : List Sign} (hbegun : date.begun? sep = some (part, rest))
    (hlength : rest.length ≤ 5) {others : List Part}
    (hothers : ∀ text, Spells date.chars rest text → others ∈ chains locale.grammar text) :
    part :: others ∈ chains locale.grammar (date.text opening sep).toList := by
  obtain ⟨answer, hanswer, hrel⟩ := date.date_text hopening hsep
  rw [hbegun] at hrel
  cases hrel with | @some found _ hfound =>
  obtain ⟨rfl, hspells⟩ := hfound
  refine mem_chains_iff.2 (.inr ⟨.date, found, others, hanswer, ?_, hothers _ hspells, rfl⟩)
  rw [hspells.length_eq, length_text]
  dsimp only
  omega

/-- The parts settle the day of the month twice. -/
theorem not_ofParts_monthDays {p q : Part} (hp : p.kind = .monthDay) (hq : q.kind = .monthDay)
    (rest : List Part) (reference : DateTime) (clock : TimeOfDay) (term : Term) :
    Term.ofParts (assemble (p :: q :: rest)) reference clock ≠ .ok term := by
  have hmonthDay {p : Part} (h : p.kind = .monthDay) :
      ∃ day looped, p = ofPoint (.monthDay day looped) := by
    rcases p with (point | span) | _
    · rcases point with ⟨_, _ | _⟩ | _ | ⟨day, looped⟩ | _ | _ | _ <;> cases h
      exact ⟨day, looped, rfl⟩
    · cases span <;> cases h
    · cases h
  obtain ⟨_, _, rfl⟩ := hmonthDay hp
  obtain ⟨_, _, rfl⟩ := hmonthDay hq
  intro hok
  obtain ⟨-, hvalid, -⟩ := Term.ofParts_eq_ok_iff.1 hok
  have hscopes := hvalid.scopes
  simp only [assemble, gather, ofPoint, contents, List.cons_append, List.filterMap_cons,
    Part.content?, List.pairwise_cons, List.mem_cons, forall_eq_or_imp] at hscopes
  exact hscopes.1.1 .day ⟨rfl, rfl⟩

/-- What the text of a date is read as, if anything. -/
theorem mem_readingsOf_text_iff {term : Term} (hopening : opening ∈ dateOpenings reader.locale)
    (hsep : sep ∈ ['.', '-']) : term ∈ readingsOf reader (date.text opening sep).toList ↔
      (date.IsReal ∧ term = ⟨[date.full]⟩) ∨
      (¬ date.IsReal ∧ sep = '.' ∧ date.IsDayOfYear ∧
        (firstYear ≤ date.year ∧ date.year ≤ lastYear) ∧ term = ⟨[date.short, date.inYear]⟩) := by
  have hunlimited : ∀ side, (⟨[date.full]⟩ : Term).limiter? side = none ∧
      (⟨[date.short, date.inYear]⟩ : Term).limiter? side = none := fun _ => ⟨rfl, rfl⟩
  rw [mem_readingsOf_iff]
  constructor
  · rintro ⟨chain, hchain, hterm⟩
    obtain (⟨hdate, rfl⟩ | ⟨hdate, hdot, hleap, hyear, rfl⟩) | ⟨p, q, rest, hp, hq, rfl⟩ :=
      date.of_mem_chains_text hopening hsep hchain
    · obtain ⟨rfl, -⟩ := Term.ofParts_eq_ok_iff.1 hterm
      exact .inl ⟨hdate, rfl⟩
    · obtain ⟨rfl, -⟩ := Term.ofParts_eq_ok_iff.1 hterm
      exact .inr ⟨hdate, hdot, hleap, hyear, rfl⟩
    · exact absurd hterm (not_ofParts_monthDays hp hq _ _ _ _)
  · rintro (⟨hdate, rfl⟩ | ⟨hdate, rfl, hleap, hyear, rfl⟩)
    · refine ⟨[date.full], ?_, Term.ofParts_of_unlimited rfl (List.cons_ne_nil _ _)
        fun side => (hunlimited side).1⟩
      refine date.mem_chains_text hopening hsep (if_pos hdate) (by decide) fun text htext => ?_
      rw [List.length_eq_zero_iff.1 htext.length_eq]
      exact mem_chains_iff.2 (.inl ⟨rfl, rfl⟩)
    · refine ⟨[date.short, date.inYear], ?_, Term.ofParts_of_unlimited rfl (List.cons_ne_nil _ _)
        fun side => (hunlimited side).2⟩
      refine date.mem_chains_text hopening hsep ((if_neg hdate).trans (if_pos hleap)) (by decide)
        fun text htext => (mem_chains_year_iff htext).2 ⟨date.inYear, ?_, rfl⟩
      rw [valueOf_yearNumber]
      exact yearPart_eq_some_iff.2 ⟨hyear, rfl⟩

end Readings

section Whole

theorem isDigit_of_mem {c : Char}
    (h : c ∈ date.dayDigits ∨ c ∈ date.monthDigits ∨ c ∈ date.yearDigits) : isDigit c = true := by
  refine date.digits c ?_
  simp only [List.mem_append]
  tauto

theorem ends_of_digits {digits : List Char} (hne : digits ≠ [])
    (h : ∀ c ∈ digits, isDigit c = true) : Ends digits := by
  rw [Ends, List.getLast?_eq_some_getLast hne, Option.any_some,
    Text.isBlank_of_isDigit (h _ (List.getLast_mem hne))]
  rfl

/-- The text has no blanks at its ends. -/
theorem strip_text (sep : Char) (hopening : opening ∈ dateOpenings locale) :
    Text.strip (date.text opening sep).toList = (date.text opening sep).toList := by
  rw [text, String.toList_ofList]
  refine strip_of_ends ?_ ?_
  · have hopenings : ∀ opening ∈ dateOpenings locale,
        opening.toList.head?.all (!Text.isBlank ·) = true := by
      cases locale <;> decide
    have hopening := hopenings opening hopening
    intro c hc
    cases hletters : opening.toList with
    | cons d rest =>
      rw [hletters] at hc hopening
      obtain rfl := Option.some.inj hc
      simpa using hopening
    | nil =>
      obtain ⟨d, rest, hday⟩ := List.exists_cons_of_ne_nil (l := date.dayDigits) fun hnil => by
        have hlength := date.length_day
        simp [hnil] at hlength
      rw [hletters, hday] at hc
      obtain rfl := Option.some.inj hc
      exact Text.isBlank_of_isDigit (date.isDigit_of_mem (.inl (by simp [hday])))
  · have hne : date.yearDigits ≠ [] := List.ne_nil_of_length_pos (by rw [date.length_year]; decide)
    have hyear := ends_of_digits hne fun c hc => date.isDigit_of_mem (.inr (.inr hc))
    have hmonth := (hyear.append_left [sep]).append_left date.monthDigits
    exact ((hmonth.append_left [sep]).append_left date.dayDigits).append_left _

/-- The text is short and has no special letters. -/
theorem ordinary_text (hopening : opening ∈ dateOpenings locale) (hsep : sep ∈ ['.', '-']) :
    Text.Ordinary (date.text opening sep).toList := by
  have hspecial : ∀ c ∈ Text.specialLetters, isDigit c = false :=
    List.all_iff_forall_prop.1 (by decide)
  have hseps : ∀ sep ∈ ['.', '-'], sep ∉ Text.specialLetters :=
    List.all_iff_forall_prop.1 (by decide)
  have hopenings : ∀ opening ∈ dateOpenings locale,
      opening.toList.all (· ∉ Text.specialLetters) = true ∧ opening.toList.length ≤ 3 := by
    cases locale <;> decide
  obtain ⟨hletters, hlength⟩ := hopenings opening hopening
  have hdigit {c : Char} (hc : isDigit c = true) : c ∉ Text.specialLetters := fun hmem => by
    rw [hspecial c hmem] at hc
    cases hc
  refine Text.ordinary_of_length_le (fun c hc => ?_) ?_
  · simp only [text, String.toList_ofList, List.mem_append, List.mem_cons] at hc
    rcases hc with hc | hc | rfl | hc | rfl | hc
    · simpa using List.all_eq_true.1 hletters c hc
    · exact hdigit (date.isDigit_of_mem (.inl hc))
    · exact hseps c hsep
    · exact hdigit (date.isDigit_of_mem (.inr (.inl hc)))
    · exact hseps c hsep
    · exact hdigit (date.isDigit_of_mem (.inr (.inr hc)))
  · have hshort : ∀ n ∈ [1, 2], n ≤ 2 := by decide
    have hday := hshort _ date.length_day
    have hmonth := hshort _ date.length_month
    have hmax : 13 ≤ Text.maxDigits := by decide
    rw [length_text]
    omega

end Whole

end WrittenDate

namespace Reader

/-- A date with its year is read as that date if the calendar has it. Otherwise it is not read, but
for 29 February in a year without one: where dots stand behind the day and the month, that is read
as the day of the year, and the year. -/
theorem read_fullDate (reader : Reader) (date : WrittenDate) {opening : String}
    (hopening : opening ∈ Recognizer.dateOpenings reader.locale) {sep : Char}
    (hsep : sep ∈ ['.', '-']) {readings : List Term} :
    reader.read (date.text opening sep) = .ok readings ↔
      (date.IsReal ∧ readings = [⟨[date.full]⟩]) ∨
      (¬ date.IsReal ∧ sep = '.' ∧ date.day = 29 ∧ date.month = 2 ∧
        (firstYear ≤ date.year ∧ date.year ≤ lastYear) ∧
          readings = [⟨[date.short, date.inYear]⟩]) := by
  have hreadable := readable_of_ordinary reader.locale (date.ordinary_text hopening hsep)
  have hleap (hrange : firstYear ≤ date.year ∧ date.year ≤ lastYear) :
      date.IsDayOfYear ↔ date.IsReal ∨ date.month = 2 ∧ date.day = 29 := isDate_leapYear_iff hrange
  rw [read_eq_ok_iff_of_unique (date.strip_text sep hopening) hreadable
    fun t => date.mem_readingsOf_text_iff hopening hsep]
  · constructor
    · rintro ⟨t, ⟨hdate, rfl⟩ | ⟨hdate, hdot, hday, hrange, rfl⟩, rfl⟩
      · exact .inl ⟨hdate, rfl⟩
      · obtain ⟨hmonth, hday⟩ := ((hleap hrange).1 hday).resolve_left hdate
        exact .inr ⟨hdate, hdot, hday, hmonth, hrange, rfl⟩
    · rintro (⟨hdate, rfl⟩ | ⟨hdate, hdot, hday, hmonth, hrange, rfl⟩)
      · exact ⟨_, .inl ⟨hdate, rfl⟩, rfl⟩
      · exact ⟨_, .inr ⟨hdate, hdot, (hleap hrange).2 (.inr ⟨hmonth, hday⟩), hrange, rfl⟩, rfl⟩
  · rintro t u (⟨hdate, rfl⟩ | ⟨hdate, -, -, -, rfl⟩) (⟨hdate', rfl⟩ | ⟨hdate', -, -, -, rfl⟩)
    · rfl
    · exact absurd hdate hdate'
    · exact absurd hdate' hdate
    · rfl

/-- 29 February is found in 2024, and in 2023 only as a day of the year beside the year. -/
theorem read_fullDate_leapDay :
    let reader : Reader := ⟨.english, ⟨⟨2024, 1, 3, by decide⟩, 9, 30, 0, 0⟩, .midnight⟩
    let date : WrittenDate := ⟨['2', '9'], ['2'], ['2', '0', '2', '4'],
      List.all_eq_true.1 (by decide), by decide, by decide, rfl⟩
    let missing : WrittenDate := ⟨['2', '9'], ['0', '2'], ['2', '0', '2', '3'],
      List.all_eq_true.1 (by decide), by decide, by decide, rfl⟩
    "on " ∈ Recognizer.dateOpenings reader.locale ∧ "" ∈ Recognizer.dateOpenings reader.locale ∧
      '-' ∈ ['.', '-'] ∧ '.' ∈ ['.', '-'] ∧
      reader.read "on 29-2-2024" = .ok [⟨[date.full]⟩] ∧
      reader.read "29.02.2023" = .ok [⟨[missing.short, missing.inYear]⟩] := by
  intro reader date missing
  have hopenings : "on " ∈ Recognizer.dateOpenings reader.locale ∧
      "" ∈ Recognizer.dateOpenings reader.locale := by decide
  obtain ⟨hon, hnone⟩ := hopenings
  have htext : date.text "on " '-' = "on 29-2-2024" := by decide
  have htext' : missing.text "" '.' = "29.02.2023" := by decide
  have hreal : date.IsReal := by decide
  have hmissing : ¬ missing.IsReal ∧ missing.day = 29 ∧ missing.month = 2 ∧
      firstYear ≤ missing.year ∧ missing.year ≤ lastYear := by decide
  obtain ⟨hnot, hday, hmonth, hrange⟩ := hmissing
  refine ⟨hon, hnone, by decide, by decide, ?_, ?_⟩
  · rw [← htext]
    exact (read_fullDate reader date hon (by decide)).2 (.inl ⟨hreal, rfl⟩)
  · rw [← htext']
    exact (read_fullDate reader missing hnone (by decide)).2
      (.inr ⟨hnot, rfl, hday, hmonth, hrange, rfl⟩)

/-- A date that the calendar does not have may be read. -/
theorem not_forall_read_isReal :
    ¬ ∀ (reader : Reader) (date : WrittenDate), ∀ opening ∈ Recognizer.dateOpenings reader.locale,
      ∀ sep ∈ ['.', '-'],
        ((∃ readings, reader.read (date.text opening sep) = .ok readings) ↔ date.IsReal) := by
  intro h
  let reader : Reader := ⟨.english, ⟨⟨2024, 1, 3, by decide⟩, 9, 30, 0, 0⟩, .midnight⟩
  let date : WrittenDate := ⟨['2', '9'], ['0', '2'], ['2', '0', '2', '3'],
    List.all_eq_true.1 (by decide), by decide, by decide, rfl⟩
  have hread : (reader.read (date.text "" '.')).toOption.isSome = true := by decide +kernel
  obtain ⟨readings, hreadings⟩ := Option.isSome_iff_exists.1 hread
  have hreal :=
    (h reader date "" (by decide) '.' (by decide)).1 ⟨readings, eq_ok_of_toOption hreadings⟩
  exact absurd hreal (by decide)

end Reader

end TimePhrase
