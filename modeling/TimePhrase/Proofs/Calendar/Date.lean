import TimePhrase.Calendar.Date

/-!
# Counting the days of the calendar

Months are numbered through by `Date.monthIndex`, and `monthStart` counts the days before
the first of each. A date is thereby a month and a day in it, dates are ordered by these two,
and `Date.ofDays?` is the inverse of `Date.toDays`.
-/

namespace TimePhrase

/-- The months are numbered from one. -/
theorem exists_daysInMonth_eq {month : Nat} (year : Nat) (h : 1 ≤ month ∧ month ≤ 12) :
    ∃ hlt : month - 1 < (monthLengths year).length,
      daysInMonth year month = (monthLengths year)[month - 1] := by
  have htwelve : (monthLengths year).length = 12 := rfl
  have hlt : month - 1 < (monthLengths year).length := by omega
  refine ⟨hlt, ?_⟩
  rw [daysInMonth, if_neg (by omega), List.getD_eq_getElem?_getD, List.getElem?_eq_getElem hlt,
    Option.getD_some]

theorem daysInMonth_bounds {month : Nat} (year : Nat) (h : 1 ≤ month ∧ month ≤ 12) :
    28 ≤ daysInMonth year month ∧ daysInMonth year month ≤ 31 := by
  have hlengths : ∀ n ∈ monthLengths year, 28 ≤ n ∧ n ≤ 31 := by
    unfold monthLengths
    cases isLeapYear year <;> decide
  obtain ⟨hlt, hdays⟩ := exists_daysInMonth_eq year h
  exact hdays ▸ hlengths _ (List.getElem_mem hlt)

/-- The number of days of a year. -/
def daysInYear (year : Nat) : Nat := if isLeapYear year then 366 else 365

theorem daysInMonth_two (year : Nat) :
    daysInMonth year 2 = if isLeapYear year then 29 else 28 := rfl

/-- Only February depends on the year. -/
theorem daysInMonth_eq_of_ne_two (year other : Nat) {month : Nat} (h : month ≠ 2) :
    daysInMonth year month = daysInMonth other month := by
  match month with
  | 0 | 1 | 3 | 4 | 5 | 6 | 7 | 8 | 9 | 10 | 11 | 12 => rfl
  | 2 => contradiction
  | n + 13 => rfl

/-- A leap year has the days that any other year has, and 29 February. -/
theorem isDate_leapYear_iff {year month day : Nat} (h : firstYear ≤ year ∧ year ≤ lastYear) :
    IsDate 2000 month day ↔ IsDate year month day ∨ month = 2 ∧ day = 29 := by
  unfold IsDate firstYear lastYear at *
  by_cases hmonth : month = 2
  · subst hmonth
    have hleap : daysInMonth 2000 2 = 29 := rfl
    have hlength := daysInMonth_two year
    split at hlength <;> omega
  · rw [daysInMonth_eq_of_ne_two year 2000 hmonth]
    omega

namespace Date

theorem daysBeforeMonth_one (year : Nat) : daysBeforeMonth year 1 = 0 := rfl

theorem daysBeforeMonth_succ (year month : Nat) (h : 1 ≤ month ∧ month ≤ 12) :
    daysBeforeMonth year (month + 1) = daysBeforeMonth year month + daysInMonth year month := by
  obtain ⟨hlt, hdays⟩ := exists_daysInMonth_eq year h
  have hnext : month + 1 - 1 = month - 1 + 1 := by omega
  rw [hdays, daysBeforeMonth, daysBeforeMonth, hnext, List.take_succ_eq_append_getElem hlt,
    List.foldl_append, List.foldl_cons, List.foldl_nil]

theorem daysBeforeMonth_thirteen (year : Nat) : daysBeforeMonth year 13 = daysInYear year := by
  unfold daysBeforeMonth daysInYear monthLengths
  cases isLeapYear year <;> rfl

theorem daysBeforeYear_succ {year : Nat} (h : 1 ≤ year) :
    daysBeforeYear (year + 1) = daysBeforeYear year + daysInYear year := by
  obtain ⟨y, rfl⟩ : ∃ y, year = y + 1 := ⟨year - 1, by omega⟩
  have hquarter : (y + 1) / 4 = y / 4 + if (y + 1) % 4 = 0 then 1 else 0 := by split <;> omega
  have hcentury : (y + 1) / 100 = y / 100 + if (y + 1) % 100 = 0 then 1 else 0 := by
    split <;> omega
  have hcycle : (y + 1) / 400 = y / 400 + if (y + 1) % 400 = 0 then 1 else 0 := by
    split <;> omega
  have hle : y / 100 ≤ y / 4 := by omega
  have hdvd : (y + 1) % 400 = 0 → (y + 1) % 100 = 0 := by omega
  have hdvd' : (y + 1) % 100 = 0 → (y + 1) % 4 = 0 := by omega
  unfold daysBeforeYear daysInYear isLeapYear
  simp only [Nat.add_sub_cancel, hquarter, hcentury, hcycle]
  generalize y / 4 = a, y / 100 = b, y / 400 = c at *
  by_cases h4 : (y + 1) % 4 = 0 <;> by_cases h100 : (y + 1) % 100 = 0 <;>
    by_cases h400 : (y + 1) % 400 = 0 <;> simp_all <;> omega

/-- The days before the first of the month with the given number. -/
def monthStart (index : Nat) : Nat :=
  daysBeforeYear (index / 12) + daysBeforeMonth (index / 12) (index % 12 + 1)

/-- The length of the month with the given number. -/
def monthLength (index : Nat) : Nat := daysInMonth (index / 12) (index % 12 + 1)

theorem monthLength_bounds (index : Nat) : 28 ≤ monthLength index ∧ monthLength index ≤ 31 :=
  daysInMonth_bounds _ (by omega)

theorem monthStart_succ {index : Nat} (h : 12 ≤ index) :
    monthStart (index + 1) = monthStart index + monthLength index := by
  have hmonth := daysBeforeMonth_succ (index / 12) (index % 12 + 1) (by omega)
  unfold monthStart monthLength
  by_cases hlast : index % 12 = 11
  · have hyear : (index + 1) / 12 = index / 12 + 1 := by omega
    have hfirst : (index + 1) % 12 = 0 := by omega
    rw [hlast] at hmonth
    rw [hyear, hfirst, hlast, daysBeforeYear_succ (by omega), daysBeforeMonth_one]
    rw [daysBeforeMonth_thirteen] at hmonth
    omega
  · have hyear : (index + 1) / 12 = index / 12 := by omega
    have hnext : (index + 1) % 12 = index % 12 + 1 := by omega
    rw [hyear, hnext, hmonth]
    omega

/-- A later month starts after all days of an earlier one. -/
theorem monthStart_add_le {i j : Nat} (hi : 12 ≤ i) (h : i < j) :
    monthStart i + monthLength i ≤ monthStart j := by
  induction j with
  | zero => omega
  | succ j ih =>
    by_cases hij : i = j
    · subst hij
      exact Nat.le_of_eq (monthStart_succ hi).symm
    · have hlt := ih (by omega)
      rw [monthStart_succ (show 12 ≤ j by omega)]
      omega

theorem monthStart_mono {i j : Nat} (hi : 12 ≤ i) (h : i ≤ j) : monthStart i ≤ monthStart j := by
  rcases Nat.lt_or_eq_of_le h with hlt | rfl
  · have := monthStart_add_le hi hlt
    omega
  · exact Nat.le_refl _

section

variable (d e : Date)

theorem month_bounds : 1 ≤ d.month ∧ d.month ≤ 12 := ⟨d.isDate.2.2.1, d.isDate.2.2.2.1⟩

theorem year_bounds : 1 ≤ d.year ∧ d.year ≤ 9999 := ⟨d.isDate.1, d.isDate.2.1⟩

theorem day_bounds : 1 ≤ d.day ∧ d.day ≤ daysInMonth d.year d.month :=
  ⟨d.isDate.2.2.2.2.1, d.isDate.2.2.2.2.2⟩

theorem monthIndex_div : d.monthIndex / 12 = d.year := by
  have := d.month_bounds
  unfold monthIndex
  omega

theorem monthIndex_mod : d.monthIndex % 12 + 1 = d.month := by
  have := d.month_bounds
  unfold monthIndex
  omega

theorem monthIndex_bounds : 12 ≤ d.monthIndex ∧ d.monthIndex < 120000 := by
  have := d.month_bounds
  have := d.year_bounds
  unfold monthIndex
  omega

theorem monthLength_monthIndex : monthLength d.monthIndex = daysInMonth d.year d.month := by
  rw [monthLength, monthIndex_div, monthIndex_mod]

theorem day_le_monthLength : d.day ≤ monthLength d.monthIndex := by
  rw [monthLength_monthIndex]
  exact d.day_bounds.2

/-- A date is a day of its month. -/
theorem toDays_eq : d.toDays = monthStart d.monthIndex + (d.day - 1) := by
  rw [monthStart, monthIndex_div, monthIndex_mod, toDays]

variable {d e}

theorem toDays_lt_of_monthIndex_lt (h : d.monthIndex < e.monthIndex) : d.toDays < e.toDays := by
  have hmonths := monthStart_add_le d.monthIndex_bounds.1 h
  have hday := d.day_le_monthLength
  have hpos := d.day_bounds.1
  rw [toDays_eq d, toDays_eq e]
  omega

/-- Dates are ordered by month, then by day. -/
theorem toDays_lt_iff : d.toDays < e.toDays ↔
    d.monthIndex < e.monthIndex ∨ d.monthIndex = e.monthIndex ∧ d.day < e.day := by
  have hd := d.day_bounds.1
  have he := e.day_bounds.1
  constructor
  · intro h
    rcases Nat.lt_trichotomy d.monthIndex e.monthIndex with hlt | heq | hgt
    · exact Or.inl hlt
    · rw [toDays_eq d, toDays_eq e, heq] at h
      exact Or.inr ⟨heq, by omega⟩
    · have := toDays_lt_of_monthIndex_lt hgt
      omega
  · rintro (hlt | ⟨heq, hday⟩)
    · exact toDays_lt_of_monthIndex_lt hlt
    · rw [toDays_eq d, toDays_eq e, heq]
      omega

theorem monthIndex_le_of_toDays_le (h : d.toDays ≤ e.toDays) : d.monthIndex ≤ e.monthIndex := by
  rcases Nat.lt_or_ge e.monthIndex d.monthIndex with hlt | hle
  · have := toDays_lt_of_monthIndex_lt hlt
    omega
  · exact hle

/-- The month of a date is the one between whose first days the date lies. -/
theorem monthIndex_eq_of_bounds {index : Nat} (hindex : 12 ≤ index) (hlow : monthStart index ≤ d.toDays)
    (hhigh : d.toDays < monthStart index + monthLength index) : d.monthIndex = index := by
  have hday := d.day_le_monthLength
  have hpos := d.day_bounds.1
  rw [toDays_eq] at hlow hhigh
  rcases Nat.lt_trichotomy d.monthIndex index with hlt | heq | hgt
  · have := monthStart_add_le d.monthIndex_bounds.1 hlt
    omega
  · exact heq
  · have := monthStart_add_le hindex hgt
    omega

/-- A date lies in a month or behind it if it lies on its first day or behind that. -/
theorem monthStart_le_iff {index : Nat} (hindex : 12 ≤ index) :
    monthStart index ≤ d.toDays ↔ index ≤ d.monthIndex := by
  have hday := d.day_le_monthLength
  have hpos := d.day_bounds.1
  rw [toDays_eq]
  constructor
  · intro h
    refine Nat.le_of_not_lt fun hlt => ?_
    have := monthStart_add_le d.monthIndex_bounds.1 hlt
    omega
  · intro h
    have := monthStart_mono hindex h
    omega

theorem year_le_of_monthIndex_le (h : d.monthIndex ≤ e.monthIndex) : d.year ≤ e.year := by
  rw [← monthIndex_div d, ← monthIndex_div e]
  exact Nat.div_le_div_right h

theorem ext_of_monthIndex (hindex : d.monthIndex = e.monthIndex) (hday : d.day = e.day) :
    d = e := by
  have hyear : d.year = e.year := by rw [← monthIndex_div d, ← monthIndex_div e, hindex]
  have hmonth : d.month = e.month := by rw [← monthIndex_mod d, ← monthIndex_mod e, hindex]
  cases d
  cases e
  simp_all

theorem eq_of_toDays_eq (h : d.toDays = e.toDays) : d = e := by
  have hde := mt (toDays_lt_iff (d := d) (e := e)).2 (by omega)
  have hed := mt (toDays_lt_iff (d := e) (e := d)).2 (by omega)
  exact ext_of_monthIndex (by omega) (by omega)

end

/-- A date is found by its numbers, and by no others. -/
theorem of?_eq_some_iff {year month day : Int} {d : Date} :
    of? year month day = some d ↔ (d.year : Int) = year ∧ (d.month : Int) = month ∧
      (d.day : Int) = day := by
  have hd := d.isDate
  unfold of?
  constructor
  · intro h
    split at h
    · simp only [Option.some.injEq] at h
      subst h
      simp only
      omega
    · simp at h
  · rintro ⟨rfl, rfl, rfl⟩
    simp [hd]

theorem of?_isSome {year month day : Nat} (h : IsDate year month day) :
    ∃ d, of? year month day = some d := by
  refine ⟨⟨year, month, day, h⟩, ?_⟩
  rw [of?_eq_some_iff]
  exact ⟨rfl, rfl, rfl⟩

theorem foldl_add (l : List Nat) (a : Nat) : l.foldl (· + ·) a = a + l.foldl (· + ·) 0 := by
  induction l generalizing a with
  | nil => simp
  | cons b l ih =>
    rw [List.foldl_cons, List.foldl_cons, ih (a + b), ih (0 + b)]
    omega

/-- The months of a year in front of the one found hold the days that are left out. -/
theorem monthAndDay_spec (month days : Nat) (lengths : List Nat) :
    ∃ i ≤ lengths.length, (monthAndDay month days lengths).1 = month + i ∧
      1 ≤ (monthAndDay month days lengths).2 ∧
      (lengths.take i).foldl (· + ·) 0 + ((monthAndDay month days lengths).2 - 1) = days ∧
      (i < lengths.length → (monthAndDay month days lengths).2 ≤ lengths.getD i 0) ∧
      (i = lengths.length → lengths.foldl (· + ·) 0 ≤ days) := by
  induction lengths generalizing month days with
  | nil => exact ⟨0, by simp [monthAndDay]⟩
  | cons length rest ih =>
    by_cases hlt : days < length
    · refine ⟨0, by simp, ?_⟩
      simp only [monthAndDay, if_pos hlt]
      simp
      omega
    · obtain ⟨i, hi, hmonth, hpos, hsum, hday, htotal⟩ := ih (month + 1) (days - length)
      have hshift (l : List Nat) : l.foldl (· + ·) length = length + l.foldl (· + ·) 0 :=
        foldl_add l length
      refine ⟨i + 1, by simpa using hi, ?_⟩
      simp only [monthAndDay, if_neg hlt, List.length_cons, List.take_succ_cons, List.foldl_cons,
        Nat.zero_add, hshift, List.getD_cons_succ]
      refine ⟨by omega, hpos, by omega, fun h => hday (by omega), fun h => ?_⟩
      have := htotal (by omega)
      omega

/-- The year that is guessed and the one behind it enclose the day. -/
theorem daysBeforeYear_yearOfDays (days : Nat) :
    1 ≤ yearOfDays days ∧ daysBeforeYear (yearOfDays days) ≤ days ∧
      days < daysBeforeYear (yearOfDays days + 1) := by
  obtain ⟨k, hk⟩ : ∃ k, k = days * 400 / 146097 := ⟨_, rfl⟩
  have hlow : daysBeforeYear (k + 1) ≤ days := by
    unfold daysBeforeYear
    omega
  have hhigh : days < daysBeforeYear (k + 3) := by
    unfold daysBeforeYear
    omega
  unfold yearOfDays
  simp only [← hk]
  split
  · exact ⟨by omega, by assumption, hhigh⟩
  · exact ⟨by omega, hlow, by omega⟩

/-- The number of days of the calendar. -/
def dayCount : Nat := daysBeforeYear (lastYear + 1)

theorem monthStart_year {year : Nat} : monthStart (12 * year) = daysBeforeYear year := by
  have hdiv : 12 * year / 12 = year := by omega
  have hmod : 12 * year % 12 = 0 := by omega
  rw [monthStart, hdiv, hmod, daysBeforeMonth_one]
  omega

/-- The last days of the calendar are those of its last month. -/
theorem monthStart_add_le_dayCount (d : Date) :
    monthStart d.monthIndex + monthLength d.monthIndex ≤ dayCount := by
  have hend := monthStart_add_le (j := 12 * (lastYear + 1)) d.monthIndex_bounds.1
    d.monthIndex_bounds.2
  rwa [monthStart_year] at hend

theorem toDays_lt_dayCount (d : Date) : d.toDays < dayCount := by
  have hend := d.monthStart_add_le_dayCount
  have hday := d.day_le_monthLength
  have hpos := d.day_bounds.1
  rw [toDays_eq]
  omega

theorem daysBeforeYear_mono {a b : Nat} (ha : 1 ≤ a) (h : a ≤ b) :
    daysBeforeYear a ≤ daysBeforeYear b := by
  rw [← monthStart_year, ← monthStart_year]
  exact monthStart_mono (by omega) (by omega)

/-- Every day that the calendar counts is the day of a date. -/
theorem ofDays?_of_lt {days : Nat} (h : days < dayCount) :
    ∃ d, ofDays? days = some d ∧ d.toDays = days := by
  obtain ⟨hfirst, hlow, hhigh⟩ := daysBeforeYear_yearOfDays days
  obtain ⟨year, hyear⟩ : ∃ year, year = yearOfDays days := ⟨_, rfl⟩
  rw [← hyear] at hfirst hlow hhigh
  have hlast : year ≤ lastYear := by
    rcases Nat.lt_or_ge lastYear year with hlt | hle
    · have hmono : daysBeforeYear (lastYear + 1) ≤ daysBeforeYear year :=
        daysBeforeYear_mono (by decide) hlt
      unfold dayCount at h
      omega
    · exact hle
  have hyearLength : (monthLengths year).foldl (· + ·) 0 = daysInYear year :=
    daysBeforeMonth_thirteen year
  have hlengths : (monthLengths year).length = 12 := rfl
  rw [daysBeforeYear_succ hfirst] at hhigh
  obtain ⟨i, hi, hmonth, hpos, hsum, hday, htotal⟩ :=
    monthAndDay_spec 1 (days - daysBeforeYear year) (monthLengths year)
  cases hfound : monthAndDay 1 (days - daysBeforeYear year) (monthLengths year) with
  | mk month day =>
    simp only [hfound] at hmonth hpos hsum hday
    have hlt : i < 12 := by
      rcases Nat.lt_or_ge i 12 with hlt | hge
      · exact hlt
      · have := htotal (by omega)
        omega
    have hlength : daysInMonth year month = (monthLengths year).getD i 0 := by
      rw [daysInMonth, if_neg (by omega), hmonth, Nat.add_sub_cancel_left]
    have hbefore : daysBeforeMonth year month = ((monthLengths year).take i).foldl (· + ·) 0 := by
      rw [daysBeforeMonth, hmonth, Nat.add_sub_cancel_left]
    have hdate : IsDate year month day :=
      ⟨hfirst, hlast, by omega, by omega, hpos, by rw [hlength]; exact hday (by omega)⟩
    refine ⟨⟨year, month, day, hdate⟩, ?_, ?_⟩
    · have hnonneg : ¬ (days : Int) < 0 := by omega
      rw [ofDays?, if_neg hnonneg]
      simp only [Int.toNat_natCast, ← hyear, hfound]
      exact of?_eq_some_iff.2 ⟨rfl, rfl, rfl⟩
    · simp only [toDays]
      omega

theorem ofDays?_toDays (d : Date) : ofDays? d.toDays = some d := by
  obtain ⟨found, hfound, hdays⟩ := ofDays?_of_lt d.toDays_lt_dayCount
  rw [hfound, eq_of_toDays_eq hdays]

theorem bounds_of_ofDays? {days : Int} {d : Date} (h : ofDays? days = some d) :
    0 ≤ days ∧ days < dayCount := by
  have hnonneg : ¬ days < 0 := fun hneg => by simp [ofDays?, hneg] at h
  obtain ⟨n, rfl⟩ := Int.eq_ofNat_of_zero_le (Int.not_lt.1 hnonneg)
  rw [ofDays?, if_neg hnonneg] at h
  have hyear : (d.year : Int) = yearOfDays n := (of?_eq_some_iff.1 h).1
  obtain ⟨hfirst, _, hhigh⟩ := daysBeforeYear_yearOfDays n
  have hend : daysBeforeYear (yearOfDays n + 1) ≤ dayCount :=
    daysBeforeYear_mono (by omega) (by have := d.year_bounds.2; unfold lastYear; omega)
  omega

/-- Reading a count of days finds the date with that count. -/
theorem ofDays?_eq_some_iff {days : Int} {d : Date} :
    ofDays? days = some d ↔ (d.toDays : Int) = days := by
  constructor
  · intro h
    have hbounds := bounds_of_ofDays? h
    obtain ⟨n, rfl⟩ := Int.eq_ofNat_of_zero_le hbounds.1
    obtain ⟨found, hfound, hdays⟩ := ofDays?_of_lt (show n < dayCount by omega)
    rw [hfound, Option.some.injEq] at h
    rw [← h, hdays]
  · rintro rfl
    exact ofDays?_toDays d

theorem addDays?_eq_some_iff {d e : Date} {count : Int} :
    d.addDays? count = some e ↔ (e.toDays : Int) = d.toDays + count := ofDays?_eq_some_iff

theorem addDays?_isSome {d : Date} (count : Int) (hlow : 0 ≤ d.toDays + count)
    (hhigh : d.toDays + count < dayCount) : ∃ e, d.addDays? count = some e := by
  obtain ⟨n, hn⟩ := Int.eq_ofNat_of_zero_le hlow
  obtain ⟨e, he, _⟩ := ofDays?_of_lt (show n < dayCount by omega)
  exact ⟨e, by rw [addDays?, hn]; exact he⟩

/-- A shorter move forward stays in the calendar if a longer one does. -/
theorem addDays?_isSome_of_le {d e : Date} (count : Int) (hcount : 0 ≤ count)
    (h : d.toDays + count ≤ e.toDays) : ∃ f, d.addDays? count = some f :=
  addDays?_isSome count (by omega) (by have := e.toDays_lt_dayCount; omega)

/-- A move forward within the month. -/
theorem exists_addDays?_of_day_le {d : Date} (count : Nat)
    (h : d.day + count ≤ monthLength d.monthIndex) :
    ∃ e, d.addDays? count = some e ∧ e.monthIndex = d.monthIndex := by
  have hend := d.monthStart_add_le_dayCount
  have hpos := d.day_bounds.1
  have hdays := d.toDays_eq
  obtain ⟨e, he⟩ := addDays?_isSome (d := d) count (by omega) (by omega)
  have hedays := addDays?_eq_some_iff.1 he
  exact ⟨e, he, monthIndex_eq_of_bounds d.monthIndex_bounds.1 (by omega) (by omega)⟩

theorem weekday_bounds (d : Date) : 1 ≤ d.weekday ∧ d.weekday ≤ 7 := by
  unfold weekday
  omega

/-- The week of a date, counted from the first week of the calendar. -/
def weekIndex (d : Date) : Nat := d.toDays / 7

theorem toDays_eq_weekIndex (d : Date) : d.toDays = 7 * d.weekIndex + (d.weekday - 1) := by
  unfold weekIndex weekday
  omega

/-- A clamped day is the wanted day, or the last one of a month that is too short. -/
theorem ofClamped?_eq_some_iff {year month day : Int} {d : Date} :
    ofClamped? year month day = some d ↔ (d.year : Int) = year ∧ (d.month : Int) = month ∧
      (d.day : Int) = min day (daysInMonth d.year d.month) := by
  rw [ofClamped?, of?_eq_some_iff]
  constructor
  · rintro ⟨rfl, rfl, hday⟩
    exact ⟨rfl, rfl, hday⟩
  · rintro ⟨rfl, rfl, hday⟩
    exact ⟨rfl, rfl, hday⟩

theorem ofClamped?_isSome {year month : Nat} {day : Int} (hyear : 1 ≤ year ∧ year ≤ 9999)
    (hmonth : 1 ≤ month ∧ month ≤ 12) (hday : 1 ≤ day) :
    ∃ d, ofClamped? year month day = some d := by
  have hlength := daysInMonth_bounds year hmonth
  obtain ⟨n, hn⟩ := Int.eq_ofNat_of_zero_le (a := min day (daysInMonth year month)) (by omega)
  have hdate : IsDate year month n := ⟨hyear.1, hyear.2, hmonth.1, hmonth.2, by omega, by omega⟩
  obtain ⟨d, hd⟩ := of?_isSome hdate
  exact ⟨d, by simpa [ofClamped?, hn] using hd⟩

theorem addMonths?_eq_some_iff {d e : Date} {count : Int} :
    d.addMonths? count = some e ↔ (e.monthIndex : Int) = d.monthIndex + count ∧
      e.day = min d.day (daysInMonth e.year e.month) := by
  have he := e.month_bounds
  rw [addMonths?, ofClamped?_eq_some_iff]
  unfold monthIndex
  omega

theorem addMonths?_isSome {d : Date} (count : Int) (hlow : 12 ≤ d.monthIndex + count)
    (hhigh : d.monthIndex + count < 120000) : ∃ e, d.addMonths? count = some e := by
  obtain ⟨index, hindex⟩ := Int.eq_ofNat_of_zero_le (a := d.monthIndex + count) (by omega)
  obtain ⟨e, he⟩ := @ofClamped?_isSome (index / 12) (index % 12 + 1) d.day (by omega) (by omega)
    (by have := d.day_bounds; omega)
  exact ⟨e, by simpa [addMonths?, hindex] using he⟩

end Date

end TimePhrase
