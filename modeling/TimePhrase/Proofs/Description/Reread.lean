import Mathlib.Data.List.Basic
import TimePhrase.Part.Describe
import TimePhrase.Proofs.Description.Plain
import TimePhrase.Proofs.Grammar
import TimePhrase.Proofs.Recognizer

/-!
# Reading a description back

The description of a part is read back as that part by the recognizer for its kind, and the
description of the next part is left, whichever that is. A description begins in one of a few
ways, and its digits do not matter to the patterns, so that what each recognizer does with it is
found by tracing a few texts.
-/

namespace TimePhrase

open Text (plainDigits digitsValue padNat padInt)

/-- The ways in which a description may begin. -/
def openings : List (List Char) :=
  ["at", "on", "in", "ev", "to", "da", "fr", "un"].map String.toList

/-- Behind a description the text ends, or the next description follows after a blank. -/
def Continues (tail next : List Char) : Prop :=
  (tail = [] ∧ next = []) ∨ ∃ opening ∈ openings, opening <+: next ∧ tail = ' ' :: next

/-- The first of the patterns that a text begins with, and the match up to the blanks behind it, if
they are known. -/
def firstTrace? {α : Type} (isOpen : Bool) (signs : List Sign) :
    List (Pattern Field × α) → Option (α × Trace Field)
  | [] => none
  | (p, info) :: rest => do
    match ← p.unclosed.traces? Text.sameLetter isOpen ⟨signs, []⟩ with
    | t :: _ => return (info, t)
    | [] => firstTrace? isOpen signs rest

/-- What patterns find in a text: the first that it begins with, the text that is left, and what
is kept under some labels. -/
def finds? {α : Type} (patterns : List (Pattern Field × α)) (isOpen : Bool) (signs : List Sign)
    (fields : List Field) : Option (α × List Sign × List (Option (List Sign))) :=
  (firstTrace? isOpen signs patterns).map fun (info, t) => (info, t.rest, fields.map t.group?)

/-- A description is read by one of the patterns, both where the text ends behind it and where it
goes on with a blank and one of the given beginnings. -/
def Reads {α : Type} (patterns : List (Pattern Field × α)) (beginnings : List (List Char))
    (signs : List Sign) (fields : List Field) (info : α) (groups : List (Option (List Sign))) :
    Prop :=
  finds? patterns false signs fields = some (info, [], groups) ∧
    ∀ beginning ∈ beginnings,
      finds? patterns true (signs ++ (' ' :: beginning).map .char) fields =
        some (info, (' ' :: beginning).map .char, groups)

instance {α : Type} [DecidableEq α] (patterns : List (Pattern Field × α))
    (beginnings : List (List Char)) (signs : List Sign) (fields : List Field) (info : α)
    (groups : List (Option (List Sign))) :
    Decidable (Reads patterns beginnings signs fields info groups) :=
  inferInstanceAs (Decidable (_ ∧ _))

/-- Behind the blank the next description always goes on with one of the beginnings. -/
def CoverOpenings (beginnings : List (List Char)) : Prop :=
  ∀ opening ∈ openings, ∃ beginning ∈ beginnings, beginning <+: opening

instance (beginnings : List (List Char)) : Decidable (CoverOpenings beginnings) :=
  List.decidableBAll _ openings

namespace Recognizer

variable {α β : Type} {digits : Nat → Char} {tail next : List Char}

theorem firstRead_of_firstTrace? {read : α → Match Field → Except Failure (Option β)}
    {patterns : List (Pattern Field × α)} {isOpen : Bool} {signs : List Sign} {info : α}
    {t : Trace Field} {value : β} (hblanks : ∀ x ∈ patterns, x.1.takesBlanks = true)
    (hdigits : ∀ i, digits i ∈ plainDigits)
    (htail : isOpen = true ∨ tail = []) (h : firstTrace? isOpen signs patterns = some (info, t))
    (hread : ∀ rest, read info { t.fill digits tail with rest } = .ok (some value)) :
    firstRead read (fill digits tail signs) patterns =
      .ok (some (value, (fill digits tail t.rest).dropWhile Text.isBlank)) := by
  induction patterns with
  | nil => exact absurd h nofun
  | cons pattern rest ih =>
    obtain ⟨p, other⟩ := pattern
    obtain ⟨hp, hrest⟩ := List.forall_mem_cons.1 hblanks
    obtain ⟨found, hfound, h⟩ := Option.bind_eq_some_iff.1 h
    have hmatches : p.unclosed.matches? Text.sameLetter ⟨fill digits tail signs, []⟩ =
        found.map (Trace.fill digits tail) := Pattern.matches?_fill digits tail hdigits htail hfound
    rw [firstRead, begins, Pattern.first?_of_takesBlanks hp, Pattern.first?, hmatches]
    cases found with
    | nil => exact ih hrest h
    | cons first others =>
      obtain ⟨rfl, rfl⟩ := Prod.mk.inj (Option.some.inj h)
      simp only [List.map_cons, List.head?_cons, Option.map_some, hread, ok_bind]
      rfl

/-- A description that its patterns read is read back, and what follows it is left. -/
theorem firstPart_of_reads {patterns : List (Pattern Field × α)} {beginnings : List (List Char)}
    {signs : List Sign} {fields : List Field} {info : α} {groups : List (Option (List Sign))}
    {read : α → Match Field → Except Failure (Option Part)} {part : Part}
    (kind : Kind) (hkind : patterns.map (·.1) = patternsOf Grammar.english kind)
    (hcover : CoverOpenings beginnings)
    (h : Reads patterns beginnings signs fields info groups) (hdigits : ∀ i, digits i ∈ plainDigits)
    (hnext : Continues tail next)
    (hread : ∀ m : Match Field, fields.map m.group? =
      groups.map (·.map (·.map (Sign.fill digits))) → read info m = .ok (some part)) :
    firstPart patterns (signs.map (Sign.fill digits) ++ tail) read =
      .ok (some ⟨part, next⟩) := by
  have hfound {isOpen : Bool} {more : List Char} {signs rest : List Sign}
      (htail : isOpen = true ∨ more = [])
      (h : finds? patterns isOpen signs fields = some (info, rest, groups)) :
      firstPart patterns (fill digits more signs) read =
        .ok (some ⟨part, (fill digits more rest).dropWhile Text.isBlank⟩) := by
    obtain ⟨⟨info', t⟩, htrace, heq⟩ := Option.map_eq_some_iff.1 h
    simp only [Prod.mk.injEq] at heq
    obtain ⟨rfl, rfl, hgroups⟩ := heq
    have hgroup (rest : List Char) (label : Field) :
        { t.fill digits more with rest }.group? label =
          (t.group? label).map (·.map (Sign.fill digits)) := Trace.group?_fill t label
    have hfields (rest : List Char) : fields.map { t.fill digits more with rest }.group? =
        groups.map (·.map (·.map (Sign.fill digits))) := by
      simp [← hgroups, hgroup, Function.comp_def]
    rw [firstPart, firstRead_of_firstTrace? (takesBlanks_patternsOf .english kind hkind) hdigits
      htail htrace fun rest => hread _ (hfields rest)]
    rfl
  rcases hnext with ⟨rfl, rfl⟩ | ⟨opening, hopening, ⟨more, rfl⟩, rfl⟩
  · exact hfound (.inr rfl) h.1
  · obtain ⟨beginning, hbeginning, known, rfl⟩ := hcover opening hopening
    have hopen := @hfound true (known ++ more) _ _ (.inl rfl) (h.2 beginning hbeginning)
    -- A description does not begin with a blank.
    have hblank : ∀ opening ∈ openings, (opening.head?.all (!Text.isBlank ·)) = true ∧
        opening ≠ [] := by decide
    obtain ⟨hhead, hne⟩ := hblank _ hopening
    obtain ⟨c, rest, hcons⟩ := List.exists_cons_of_ne_nil hne
    have hc : Text.isBlank c = false := by simpa [hcons] using hhead
    have hspace : Text.isBlank ' ' = true := by decide
    have htext : beginning ++ (known ++ more) = c :: (rest ++ more) := by
      rw [← List.append_assoc, hcons, List.cons_append]
    simpa [fill, Sign.fill, Function.comp_def, htext, hc, hspace] using hopen

/-- Known letters. -/
def letters (text : String) : List Sign := text.toList.map .char

@[simp] theorem map_fill_letters (digits : Nat → Char) (text : String) :
    (letters text).map (Sign.fill digits) = text.toList := by
  simp [letters, Sign.fill, Function.comp_def]

/-- Digits by their places. -/
def digitsAt (chars : List Char) (i : Nat) : Char := chars.getD i '0'

theorem digitsAt_mem {chars : List Char} (h : ∀ c ∈ chars, c ∈ plainDigits) (i : Nat) :
    digitsAt chars i ∈ plainDigits := by
  unfold digitsAt
  cases hi : chars[i]? with
  | none => simp [List.getD, hi, plainDigits]
  | some c => simpa [List.getD, hi] using h c (List.mem_of_getElem? hi)

/-- The two digits of a number, and what they stand for. -/
theorem exists_padNat_two {n : Nat} (h : n < 100) : ∃ c d, (padNat 2 n).toList = [c, d] ∧
    (∀ e ∈ [c, d], e ∈ plainDigits) ∧ digitsValue [c, d] = n := by
  obtain ⟨c, d, hdigits⟩ := List.length_eq_two.1 (Text.length_padNat (by decide) (by omega))
  exact ⟨c, d, hdigits, fun e he => Text.mem_padNat (hdigits ▸ he),
    hdigits ▸ Text.digitsValue_padNat 2 n⟩

theorem exists_padNat_four {n : Nat} (h : n < 10000) :
    ∃ c d e f, (padNat 4 n).toList = [c, d, e, f] ∧
      (∀ g ∈ [c, d, e, f], g ∈ plainDigits) ∧ digitsValue [c, d, e, f] = n := by
  have hlength : (padNat 4 n).toList.length = 4 := Text.length_padNat (by decide) (by omega)
  match hdigits : (padNat 4 n).toList, hlength with
  | [c, d, e, f], _ =>
    exact ⟨c, d, e, f, rfl, fun g hg => Text.mem_padNat (hdigits ▸ hg),
      hdigits ▸ Text.digitsValue_padNat 4 n⟩

section Time

/-- The signs of "at HH:MM". -/
def timeSigns : List Sign :=
  letters "at " ++ [.digit 0, .digit 1] ++ letters ":" ++ [.digit 2, .digit 3]

theorem reads_time : Reads (Grammar.english.times.map (·, ())) openings timeSigns
    [.hour, .minute, .halfDay] ()
    [some [.digit 0, .digit 1], some [.digit 2, .digit 3], none] := by
  decide +kernel

/-- A time of day is read back. -/
theorem time_describe (clock : TimeOfDay) (hnext : Continues tail next) :
    time .english (("at " ++ clock.stamp).toList ++ tail) =
      .ok (some ⟨ofPoint (.time clock false), next⟩) := by
  obtain ⟨h, h', hhour, hhourMem, hhourValue⟩ := exists_padNat_two (n := clock.hour) (by omega)
  obtain ⟨m, m', hminute, hminuteMem, hminuteValue⟩ :=
    exists_padNat_two (n := clock.minute) (by omega)
  have hmem : ∀ c ∈ [h, h', m, m'], c ∈ plainDigits :=
    List.forall_mem_append.2 ⟨hhourMem, hminuteMem⟩
  have hstamp : clock.stamp = padNat 2 clock.hour ++ ":" ++ padNat 2 clock.minute := rfl
  have htext : ("at " ++ clock.stamp).toList =
      timeSigns.map (Sign.fill (digitsAt [h, h', m, m'])) := by
    simp [hstamp, timeSigns, hhour, hminute, Sign.fill, digitsAt]
  rw [htext]
  refine firstPart_of_reads .time (by simp [patternsOf, Function.comp_def]) (by decide) reads_time
    (digitsAt_mem hmem) hnext fun found hfields => ?_
  simp [Sign.fill, digitsAt] at hfields
  have hbounds : (clock.hour : Int) < 24 ∧ (clock.minute : Int) < 60 := by omega
  simp [hourOf, shortNumber?, hfields, hhourValue, hminuteValue, TimeOfDay.of?, hbounds]

end Time

section Date

/-- The signs of "DD.MM." behind a word, and of the year behind it. -/
def dateSigns (word : String) (year : List Sign) : List Sign :=
  letters word ++ [.char ' ', .digit 0, .digit 1, .char '.', .digit 2, .digit 3, .char '.'] ++ year

theorem reads_date : Reads Grammar.english.dates [[]]
    (dateSigns "on" [.digit 4, .digit 5, .digit 6, .digit 7])
    [.day, .month, .year] false
    [some [.digit 0, .digit 1], some [.digit 2, .digit 3],
      some [.digit 4, .digit 5, .digit 6, .digit 7]] := by
  decide +kernel

theorem reads_date_withoutYear (looped : Bool) : Reads Grammar.english.dates [[]]
    (dateSigns (lead looped "on") []) [.day, .month, .year, .shortYear] looped
    [some [.digit 0, .digit 1], some [.digit 2, .digit 3], none, none] := by
  revert looped
  decide +kernel

/-- A date without a year is read back. -/
theorem date_describe_withoutYear {d m : Nat} (looped : Bool) (h : IsDate someLeapYear m d)
    (hnext : Continues tail next) :
    date .english ((lead looped "on" ++ " " ++ padNat 2 d ++ "." ++ padNat 2 m ++ ".").toList ++
      tail) = .ok (some ⟨ofPoint (.date d m none looped), next⟩) := by
  obtain ⟨d₁, d₂, hday, hdayMem, hdayValue⟩ :=
    exists_padNat_two (n := d) (by have := day_le_of_isDate h; omega)
  obtain ⟨m₁, m₂, hmonth, hmonthMem, hmonthValue⟩ :=
    exists_padNat_two (n := m) (by have := h.2.2.2.1; omega)
  have hmem : ∀ c ∈ [d₁, d₂, m₁, m₂], c ∈ plainDigits :=
    List.forall_mem_append.2 ⟨hdayMem, hmonthMem⟩
  have htext : (lead looped "on" ++ " " ++ padNat 2 d ++ "." ++ padNat 2 m ++ ".").toList =
      (dateSigns (lead looped "on") []).map (Sign.fill (digitsAt [d₁, d₂, m₁, m₂])) := by
    simp [dateSigns, hday, hmonth, Sign.fill, digitsAt]
  rw [htext]
  refine firstPart_of_reads .date rfl (by decide) (reads_date_withoutYear looped)
    (digitsAt_mem hmem) hnext fun found hfields => ?_
  simp [Sign.fill, digitsAt] at hfields
  simp [shortNumber?, yearOf, hfields, hdayValue, hmonthValue, h]

/-- A date with a year is read back. -/
theorem date_describe {d m y : Nat} (h : IsDate y m d) (hnext : Continues tail next) :
    date .english (("on " ++ padNat 2 d ++ "." ++ padNat 2 m ++ "." ++ padNat 4 y).toList ++
      tail) = .ok (some ⟨ofPoint (.date d m (some y) false), next⟩) := by
  have hlast : y ≤ 9999 := h.2.1
  obtain ⟨d₁, d₂, hday, hdayMem, hdayValue⟩ :=
    exists_padNat_two (n := d) (by have := day_le_of_isDate h; omega)
  obtain ⟨m₁, m₂, hmonth, hmonthMem, hmonthValue⟩ :=
    exists_padNat_two (n := m) (by have := h.2.2.2.1; omega)
  obtain ⟨y₁, y₂, y₃, y₄, hyear, hyearMem, hyearValue⟩ := exists_padNat_four (n := y) (by omega)
  have hmem : ∀ c ∈ [d₁, d₂, m₁, m₂, y₁, y₂, y₃, y₄], c ∈ plainDigits :=
    List.forall_mem_append.2 ⟨List.forall_mem_append.2 ⟨hdayMem, hmonthMem⟩, hyearMem⟩
  have htext : ("on " ++ padNat 2 d ++ "." ++ padNat 2 m ++ "." ++ padNat 4 y).toList =
      (dateSigns "on" [.digit 4, .digit 5, .digit 6, .digit 7]).map
        (Sign.fill (digitsAt [d₁, d₂, m₁, m₂, y₁, y₂, y₃, y₄])) := by
    simp [dateSigns, hday, hmonth, hyear, Sign.fill, digitsAt]
  rw [htext]
  refine firstPart_of_reads .date rfl (by decide) reads_date (digitsAt_mem hmem) hnext
    fun found hfields => ?_
  simp [Sign.fill, digitsAt] at hfields
  simp [shortNumber?, yearOf, hfields, hdayValue, hmonthValue, hyearValue, h]

end Date

section MonthDay

/-- The signs of an ordinal of one or two digits behind some words. -/
def ordinalSigns (words : String) (short : Bool) (ending : String) : List Sign :=
  letters words ++ [.char ' '] ++ (if short then [.digit 0] else [.digit 0, .digit 1]) ++
    letters ending

theorem reads_monthDay (looped short : Bool) :
    ∀ ending ∈ ["th", "st", "nd", "rd"], Reads Grammar.english.monthDays openings
      (ordinalSigns (lead looped "on the") short ending) [.day] looped
      [some (if short then [.digit 0] else [.digit 0, .digit 1])] := by
  revert looped short
  decide +kernel

/-- A day of the month is read back. -/
theorem monthDay_describe {d : Nat} (looped : Bool) (hd : 1 ≤ d ∧ d ≤ 31)
    (hnext : Continues tail next) :
    monthDay .english ((lead looped "on the" ++ " " ++ ordinal d).toList ++ tail) =
      .ok (some ⟨ofPoint (.monthDay d looped), next⟩) := by
  have hending : ordinalEnding d ∈ ["th", "st", "nd", "rd"] := by
    unfold ordinalEnding
    split
    · simp
    · split
      · simp
      · split
        · simp
        · split <;> simp
  obtain ⟨short, chars, hchars, hsigns⟩ : ∃ (short : Bool) (chars : List Char),
      Nat.toDigits 10 d = chars ∧ chars =
        (if short then [Sign.digit 0] else [.digit 0, .digit 1]).map
          (Sign.fill (digitsAt chars)) := by
    by_cases hshort : d < 10
    · exact ⟨true, _, Nat.toDigits_of_lt_base hshort, rfl⟩
    · have hlong := Nat.toDigits_of_base_le (by decide : 1 < 10) (by omega : 10 ≤ d)
      rw [Nat.toDigits_of_lt_base (by omega : d / 10 < 10)] at hlong
      exact ⟨false, _, hlong, rfl⟩
  have hmem : ∀ c ∈ chars, c ∈ plainDigits := fun c hc => Text.mem_toDigits (hchars ▸ hc)
  have htext : (lead looped "on the" ++ " " ++ ordinal d).toList =
      (ordinalSigns (lead looped "on the") short (ordinalEnding d)).map
        (Sign.fill (digitsAt chars)) := by
    have hdigits : (toString (d : Int)).toList = chars := by simp [Int.repr, ← hchars]
    simp only [ordinal, ordinalSigns, String.toList_append, List.map_append, map_fill_letters,
      ← hsigns, hdigits, List.append_assoc]
    rfl
  rw [htext]
  refine firstPart_of_reads .monthDay rfl (by decide) (reads_monthDay looped short _ hending)
    (digitsAt_mem hmem) hnext fun found hfields => ?_
  have hvalue := Text.digitsValue_toDigits d
  rw [hchars] at hvalue
  have hday : found.group? .day = some chars := by
    rw [hsigns]
    simpa using hfields
  simp [shortNumber?, hday, hvalue, hd]

end MonthDay

section Names

theorem reads_weekday (looped : Bool) : ∀ n : Fin 7,
    let name := (nameOf? weekdayNames (n + 1 : Nat)).getD ""
    Reads Grammar.english.weekdays [[]] (letters (lead looped "on" ++ " " ++ name)) [.name]
        looped [some (letters name)] ∧
      lookUp Grammar.english.weekdayNumbers name.toList = .ok (n + 1 : Nat) := by
  revert looped
  decide +kernel

theorem reads_month (looped : Bool) : ∀ n : Fin 12,
    let name := (nameOf? monthNames (n + 1 : Nat)).getD ""
    Reads Grammar.english.months [[]] (letters (lead looped "in" ++ " " ++ name)) [.name]
        looped [some (letters name)] ∧
      lookUp Grammar.english.monthNumbers name.toList = .ok (n + 1 : Nat) := by
  revert looped
  decide +kernel

/-- A point that is named is read back from its name, whose number is looked up. -/
theorem name_describe {names : List String} {count : Nat} {word : String} {looped : Bool}
    {patterns : List (Pattern Field × Bool)} {numbers : List (String × Nat)}
    (point : Nat → Bool → Point) (kind : Kind)
    (hkind : patterns.map (·.1) = patternsOf Grammar.english kind)
    (hreads : ∀ n : Fin count, let name := (nameOf? names (n + 1 : Nat)).getD ""
      Reads patterns [[]] (letters (lead looped word ++ " " ++ name)) [.name] looped
          [some (letters name)] ∧
        lookUp numbers name.toList = .ok (n + 1 : Nat))
    {n : Nat} (h : 1 ≤ n ∧ n ≤ count) {name : String} (hname : nameOf? names n = some name)
    (hnext : Continues tail next) :
    firstPart patterns ((lead looped word ++ " " ++ name).toList ++ tail) (fun looped m => do
        return some (ofPoint (point (← nameOf numbers m) looped))) =
      .ok (some ⟨ofPoint (point n looped), next⟩) := by
  obtain ⟨i, rfl⟩ : ∃ i : Fin count, n = i + 1 := ⟨⟨n - 1, by omega⟩, by simp only; omega⟩
  obtain ⟨hpattern, hlook⟩ := hreads i
  rw [hname, Option.getD_some] at hpattern hlook
  rw [← map_fill_letters (digitsAt [])]
  refine firstPart_of_reads kind hkind (by decide) hpattern (digitsAt_mem nofun) hnext
    fun found hfields => ?_
  have hfound : found.group? .name = some name.toList := by simpa using hfields
  simp [nameOf, hfound, hlook]

/-- A weekday is read back. -/
theorem weekday_describe {n : Int} (looped : Bool) (h : 1 ≤ n ∧ n ≤ 7) {name : String}
    (hname : nameOf? weekdayNames n = some name) (hnext : Continues tail next) :
    weekday .english ((lead looped "on" ++ " " ++ name).toList ++ tail) =
      .ok (some ⟨ofPoint (.weekday n looped), next⟩) := by
  obtain ⟨n, rfl⟩ := Int.eq_ofNat_of_zero_le (by omega : 0 ≤ n)
  exact name_describe (fun n looped => .weekday n looped) .weekday rfl (reads_weekday looped)
    (by omega) hname hnext

/-- A month is read back. -/
theorem month_describe {n : Int} (looped : Bool) (h : 1 ≤ n ∧ n ≤ 12) {name : String}
    (hname : nameOf? monthNames n = some name) (hnext : Continues tail next) :
    month .english ((lead looped "in" ++ " " ++ name).toList ++ tail) =
      .ok (some ⟨ofPoint (.month n looped), next⟩) := by
  obtain ⟨n, rfl⟩ := Int.eq_ofNat_of_zero_le (by omega : 0 ≤ n)
  exact name_describe (fun n looped => .month n looped) .month rfl (reads_month looped)
    (by omega) hname hnext

end Names

/-- The signs of "in YYYY". -/
def yearSigns : List Sign := letters "in " ++ [.digit 0, .digit 1, .digit 2, .digit 3]

theorem reads_year : Reads [(Grammar.english.year, ())] [[]] yearSigns [.year] ()
    [some [.digit 0, .digit 1, .digit 2, .digit 3]] := by
  decide

theorem reads_keyword : ∀ days : Fin 3, Reads Grammar.english.dayKeywords [[]]
    (letters (dayText days)) [] (days : Nat) [] := by
  decide

theorem reads_limiter (side : Side) :
    Reads Grammar.english.limiters [[]] (letters side.word) [] side [] := by
  cases side <;> decide

/-- A year is read back. -/
theorem year_describe {y : Nat} (h : 1 ≤ y ∧ y ≤ 9999) (hnext : Continues tail next) :
    year .english (("in " ++ padNat 4 y).toList ++ tail) =
      .ok (some ⟨ofPoint (.year y), next⟩) := by
  obtain ⟨y₁, y₂, y₃, y₄, hyear, hmem, hvalue⟩ := exists_padNat_four (n := y) (by omega)
  have htext : ("in " ++ padNat 4 y).toList =
      yearSigns.map (Sign.fill (digitsAt [y₁, y₂, y₃, y₄])) := by
    simp [yearSigns, hyear, Sign.fill, digitsAt]
  rw [htext]
  refine firstPart_of_reads .year rfl (by decide) reads_year (digitsAt_mem hmem) hnext
    fun found hfields => ?_
  have hplain : ∀ c ∈ [y₁, y₂, y₃, y₄], c ≠ '-' := fun c hc heq => by
    have := hmem c hc
    simp [heq, plainDigits] at this
  simp only [List.forall_mem_cons] at hplain
  simp [Sign.fill, digitsAt] at hfields
  have hfirst : firstYear ≤ y ∧ y ≤ lastYear := h
  simp [hfields, hplain, readNumber, Text.maxDigits, hvalue, hfirst]

/-- A day near today is read back. -/
theorem keyword_describe {days : Nat} (h : days ≤ 2) (hnext : Continues tail next) :
    keyword .english ((dayText days).toList ++ tail) =
      .ok (some ⟨ofSpan (.days days), next⟩) := by
  rw [← map_fill_letters (digitsAt [])]
  exact firstPart_of_reads .keyword rfl (by decide) (reads_keyword ⟨days, by omega⟩)
    (digitsAt_mem nofun) hnext fun found hfields => rfl

/-- The word of a limiter is read back. -/
theorem limiter_word (side : Side) (hnext : Continues tail next) :
    limiter .english (side.word.toList ++ tail) = .ok (some ⟨.limiter side none, next⟩) := by
  rw [← map_fill_letters (digitsAt [])]
  exact firstPart_of_reads .limiter rfl (by decide) (reads_limiter side) (digitsAt_mem nofun) hnext
    fun found hfields => rfl

end Recognizer

end TimePhrase
