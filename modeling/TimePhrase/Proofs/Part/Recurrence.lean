import TimePhrase.Proofs.Part.Motion

/-!
# How points recur

A point recurs once in each of its cycles: a weekday once a week, a day of the month once a
month. The lemmas here compare instants on a point by the cycles they lie in. A move onto a
point never passes an instant on that point, and neither does an advance.
-/

namespace TimePhrase

namespace Date

variable {d e : Date}

theorem monthIndex_eq_iff : d.monthIndex = e.monthIndex ↔ d.year = e.year ∧ d.month = e.month := by
  have hd := d.month_bounds
  have he := e.month_bounds
  unfold monthIndex
  omega

theorem year_le_of_toDays_le (h : d.toDays ≤ e.toDays) : d.year ≤ e.year :=
  year_le_of_monthIndex_le (monthIndex_le_of_toDays_le h)

theorem toDays_lt_of_year_lt (h : d.year < e.year) : d.toDays < e.toDays := by
  rcases Nat.lt_or_ge d.toDays e.toDays with hlt | hle
  · exact hlt
  · have := year_le_of_toDays_le hle
    omega

theorem toDays_le_of_year_eq (h : d.year = e.year) : d.toDays ≤ e.toDays + 365 := by
  have hd := d.month_bounds
  have he := e.month_bounds
  have hyear := daysBeforeYear_succ d.year_bounds.1
  have hlength : daysInYear d.year ≤ 366 := by
    unfold daysInYear
    split <;> omega
  have hend := monthStart_mono (i := d.monthIndex + 1) (j := 12 * (d.year + 1))
    (by have := d.monthIndex_bounds; omega) (by unfold monthIndex; omega)
  have hnext := monthStart_succ d.monthIndex_bounds.1
  have hday := d.day_le_monthLength
  have hpos := d.day_bounds.1
  have hdays := d.toDays_eq
  rw [monthStart_year] at hend
  have hstart : daysBeforeYear e.year ≤ e.toDays := by
    rw [toDays]
    omega
  rw [← h] at hstart
  omega

theorem weekIndex_le_of_toDays_le (h : d.toDays ≤ e.toDays) : d.weekIndex ≤ e.weekIndex :=
  Nat.div_le_div_right h

theorem toDays_le_of_day_le (hindex : d.monthIndex = e.monthIndex) (hday : d.day ≤ e.day) :
    d.toDays ≤ e.toDays := by
  rw [toDays_eq, toDays_eq, hindex]
  omega

theorem toDays_le_of_first (hday : d.day = 1) (h : d.monthIndex ≤ e.monthIndex) :
    d.toDays ≤ e.toDays := by
  have he := e.day_bounds.1
  rcases Nat.lt_or_eq_of_le h with hlt | heq
  · exact Nat.le_of_lt (toDays_lt_of_monthIndex_lt hlt)
  · exact toDays_le_of_day_le heq (by omega)

/-- Clamping gives the same day in the same month. -/
theorem day_eq_of_clamped {day : Int} (hindex : d.monthIndex = e.monthIndex)
    (hd : (d.day : Int) = min day (daysInMonth d.year d.month))
    (he : (e.day : Int) = min day (daysInMonth e.year e.month)) : d.day = e.day := by
  obtain ⟨hyear, hmonth⟩ := monthIndex_eq_iff.1 hindex
  rw [← hyear, ← hmonth, ← hd] at he
  exact (Int.ofNat.inj he).symm

end Date

theorem DateTime.addDays?_isSome_of_le {t u : DateTime} (count : Nat)
    (h : t.date.toDays + count ≤ u.date.toDays) :
    ∃ a, t.addDays? count = some a ∧ a.date.toDays = t.date.toDays + count := by
  obtain ⟨date, hdate⟩ := Date.addDays?_isSome_of_le (d := t.date) (e := u.date)
    count (by omega) (by omega)
  have hdays := Date.addDays?_eq_some_iff.1 hdate
  exact ⟨t.onDate date, by rw [addDays?, hdate]; rfl, by rw [date_onDate]; omega⟩

theorem DateTime.addMonths?_isSome_of_le {t u : DateTime} (count : Nat)
    (h : t.date.monthIndex + count ≤ u.date.monthIndex) :
    ∃ a, t.addMonths? count = some a ∧ a.date.monthIndex = t.date.monthIndex + count := by
  have ht := t.date.monthIndex_bounds
  have hu := u.date.monthIndex_bounds
  obtain ⟨date, hdate⟩ := Date.addMonths?_isSome (d := t.date) count (by omega) (by omega)
  have hindex := (Date.addMonths?_eq_some_iff.1 hdate).1
  exact ⟨t.onDate date, by rw [addMonths?, hdate]; rfl, by rw [date_onDate]; omega⟩

theorem DateTime.year_of_addMonths? {t m : DateTime} {count : Int}
    (h : t.addMonths? (12 * count) = some m) : (m.date.year : Int) = t.date.year + count := by
  have hindex := (addMonths?_eq_some_iff.1 h).1.1
  have ht := t.date.month_bounds
  have hm := m.date.month_bounds
  unfold Date.monthIndex at hindex
  omega

/-- A move forward by months leads to a later month, and by at least the days of a short one. -/
theorem DateTime.toDays_add_le_of_addMonths? {t m : DateTime} {count : Int}
    (hcount : 0 < count) (h : t.addMonths? count = some m) :
    t.date.monthIndex < m.date.monthIndex ∧ t.date.toDays + 28 ≤ m.date.toDays := by
  obtain ⟨⟨hindex, hday⟩, -⟩ := addMonths?_eq_some_iff.1 h
  have hlt : t.date.monthIndex < m.date.monthIndex := by omega
  have hstart := Date.monthStart_add_le t.date.monthIndex_bounds.1 hlt
  have htlength := Date.monthLength_bounds t.date.monthIndex
  have hmlength := Date.monthLength_bounds m.date.monthIndex
  have htday := t.date.day_le_monthLength
  rw [← Date.monthLength_monthIndex] at hday
  refine ⟨hlt, ?_⟩
  rw [t.date.toDays_eq, m.date.toDays_eq]
  omega

namespace Point

variable {p q : Point} {t u m : DateTime} {fenced : Bool}

/-- The number of the cycle of a point that a date lies in. A fixed year has one cycle only. -/
def cycleIndex (p : Point) (d : Date) : Nat :=
  match p with
  | time .. => d.toDays
  | weekday .. => d.weekIndex
  | monthDay .. => d.monthIndex
  | date _ _ none _ | month .. => d.year
  | date _ _ (some _) _ | year _ => 0

/-- The point recurs from one date to another: the latter lies in a later cycle. -/
def RecursBetween (p : Point) (d e : Date) : Prop := p.cycleIndex d < p.cycleIndex e

theorem cycleIndex_le_of_toDays_le {d e : Date} (h : d.toDays ≤ e.toDays) :
    p.cycleIndex d ≤ p.cycleIndex e := by
  cases p with
  | time => exact h
  | weekday => exact Date.weekIndex_le_of_toDays_le h
  | monthDay => exact Date.monthIndex_le_of_toDays_le h
  | date d m y looped =>
    cases y with
    | none => exact Date.year_le_of_toDays_le h
    | some y => exact Nat.le_refl 0
  | month => exact Date.year_le_of_toDays_le h
  | year => exact Nat.le_refl 0

theorem RecursBetween.toDays_lt {d e : Date} (h : p.RecursBetween d e) : d.toDays < e.toDays :=
  Nat.lt_of_not_le fun hle => Nat.not_le_of_lt h (cycleIndex_le_of_toDays_le hle)

/-- The point names a day, not a whole month or year, nor a time of day. -/
def IsDay : Point → Prop
  | date .. | monthDay .. | weekday .. => True
  | _ => False

/-- The instants on a point that names a day are ordered by the cycles that they lie in. -/
theorem toDays_le_of_cycleIndex_le (hday : p.IsDay) (ht : p.holdsAt t = true)
    (hu : p.holdsAt u = true) (h : p.cycleIndex t.date ≤ p.cycleIndex u.date) :
    t.date.toDays ≤ u.date.toDays := by
  cases p with
  | time | month | year => exact hday.elim
  | date d m y looped =>
    obtain ⟨htyear, htmonth, htday⟩ := holdsAt_date.1 ht
    obtain ⟨huyear, humonth, huday⟩ := holdsAt_date.1 hu
    have hmonth : t.date.month = u.date.month := Int.ofNat.inj (htmonth.trans humonth.symm)
    have hyears : t.date.year ≤ u.date.year := by
      cases y with
      | none => exact h
      | some y => exact Nat.le_of_eq (Int.ofNat.inj ((htyear y rfl).trans (huyear y rfl).symm))
    rcases Nat.lt_or_eq_of_le hyears with hlt | heq
    · exact Nat.le_of_lt (Date.toDays_lt_of_year_lt hlt)
    · have hindex := Date.monthIndex_eq_iff.2 ⟨heq, hmonth⟩
      exact Date.toDays_le_of_day_le hindex
        (Nat.le_of_eq (Date.day_eq_of_clamped hindex htday huday))
  | monthDay d looped =>
    rcases Nat.lt_or_eq_of_le h with hlt | hindex
    · exact Nat.le_of_lt (Date.toDays_lt_of_monthIndex_lt hlt)
    · exact Date.toDays_le_of_day_le hindex (Nat.le_of_eq (Date.day_eq_of_clamped hindex
        (holdsAt_monthDay.1 ht) (holdsAt_monthDay.1 hu)))
  | weekday n looped =>
    have ht := holdsAt_weekday.1 ht
    have hu := holdsAt_weekday.1 hu
    have htdays := t.date.toDays_eq_weekIndex
    have hudays := u.date.toDays_eq_weekIndex
    simp only [cycleIndex] at h
    omega

/-- A point that names a day has one such day in each of its cycles. -/
theorem toDays_eq_of_not_recursBetween (hday : p.IsDay) (ht : p.holdsAt t = true)
    (hu : p.holdsAt u = true) (hle : t.date.toDays ≤ u.date.toDays)
    (h : ¬ p.RecursBetween t.date u.date) : t.date.toDays = u.date.toDays :=
  Nat.le_antisymm hle (toDays_le_of_cycleIndex_le hday hu ht (Nat.not_lt.1 h))

/-- Two instants on a point that recurs lie within a month of each other if they lie in one cycle
of the point. -/
theorem toDays_le_of_cycleIndex_eq (hcycle : p.cycle?.isSome = true) (ht : p.holdsAt t = true)
    (hu : p.holdsAt u = true) (h : p.cycleIndex t.date = p.cycleIndex u.date) :
    t.date.toDays ≤ u.date.toDays + 30 := by
  have hday (hday : p.IsDay) : t.date.toDays ≤ u.date.toDays + 30 :=
    Nat.le_add_right_of_le (toDays_le_of_cycleIndex_le hday ht hu (Nat.le_of_eq h))
  cases p with
  | time => exact Nat.le_add_right_of_le (Nat.le_of_eq h)
  | date | monthDay | weekday => exact hday trivial
  | month m looped =>
    have hmonth := Int.ofNat.inj ((holdsAt_month.1 ht).trans (holdsAt_month.1 hu).symm)
    have hindex := Date.monthIndex_eq_iff.2 ⟨h, hmonth⟩
    have hlast := t.date.day_le_monthLength
    have hlength := (Date.monthLength_bounds t.date.monthIndex).2
    rw [t.date.toDays_eq, u.date.toDays_eq, hindex] at *
    omega
  | year => cases hcycle

/-- A point that does not recur names a year. -/
theorem isAbsolute_of_cycle?_eq_none (h : p.cycle? = none) : p.isAbsolute = true := by
  cases p with
  | date d m y looped =>
    cases y with
    | none => cases h
    | some y => rfl
  | year y => rfl
  | _ => cases h

/-- Two instants on a point that names a year lie in that year. -/
theorem year_eq_of_isAbsolute (h : p.isAbsolute = true) (ht : p.holdsAt t = true)
    (hu : p.holdsAt u = true) : t.date.year = u.date.year := by
  cases p with
  | date d m y looped =>
    cases y with
    | none => cases h
    | some y => exact Int.ofNat.inj (((holdsAt_date.1 ht).1 y rfl).trans
        ((holdsAt_date.1 hu).1 y rfl).symm)
  | year y => exact Int.ofNat.inj ((holdsAt_year.1 ht).trans (holdsAt_year.1 hu).symm)
  | _ => cases h

/-- Within a cycle of a point, the dates between two dates on the point lie on it as well. -/
theorem holdsAt_between (hdate : p.isTime = false) (ht : p.holdsAt t = true)
    (hu : p.holdsAt u = true) (hlow : t.date.toDays ≤ m.date.toDays)
    (hhigh : m.date.toDays ≤ u.date.toDays) (h : ¬ p.RecursBetween t.date u.date) :
    p.holdsAt m = true := by
  have hle := Nat.le_trans hlow hhigh
  have hlowMonth := Date.monthIndex_le_of_toDays_le hlow
  have hhighMonth := Date.monthIndex_le_of_toDays_le hhigh
  have hday (hday : p.IsDay) : p.holdsAt m = true := by
    have heq := toDays_eq_of_not_recursBetween hday ht hu hle h
    have hsame : m.date = t.date := Date.eq_of_toDays_eq (by omega)
    rw [holdsAt_congr hdate hsame, ht]
  cases p with
  | time clock inverted => exact absurd hdate nofun
  | date | monthDay | weekday => exact hday trivial
  | month n looped =>
    have ht := holdsAt_month.1 ht
    have hu := holdsAt_month.1 hu
    have hyear := Nat.le_antisymm (Date.year_le_of_toDays_le hle) (Nat.not_lt.1 h)
    have hindex := Date.monthIndex_eq_iff.2 ⟨hyear, Int.ofNat.inj (ht.trans hu.symm)⟩
    have hmonth := (Date.monthIndex_eq_iff.1 (Nat.le_antisymm hlowMonth (hindex ▸ hhighMonth))).2
    rw [holdsAt_month, ← ht, hmonth]
  | year y =>
    have ht := holdsAt_year.1 ht
    have hu := holdsAt_year.1 hu
    have hlowYear := Date.year_le_of_toDays_le hlow
    have hhighYear := Date.year_le_of_toDays_le hhigh
    rw [holdsAt_year]
    omega

/-- A point recurs whenever one above it does. -/
theorem Above.recursBetween (habove : p.Above q) (ht : q.holdsAt t = true)
    (hu : q.holdsAt u = true) (h : p.RecursBetween t.date u.date) :
    q.RecursBetween t.date u.date := by
  have hyears {d e : Date} (hlt : d.year < e.year) : d.monthIndex < e.monthIndex := by
    have hd := d.month_bounds
    have he := e.month_bounds
    unfold Date.monthIndex
    omega
  cases q with
  | time clock inverted =>
    cases p with
    | time => exact habove.elim
    | date d m y looped => cases y with
      | none => exact Date.toDays_lt_of_year_lt h
      | some y => exact (Nat.lt_irrefl _ h).elim
    | monthDay d looped => exact Date.toDays_lt_of_monthIndex_lt h
    | weekday n looped =>
      have htdays := t.date.toDays_eq_weekIndex
      have hudays := u.date.toDays_eq_weekIndex
      have ht := t.date.weekday_bounds
      have hu := u.date.weekday_bounds
      simp only [RecursBetween, cycleIndex] at h ⊢
      omega
    | month n looped => exact Date.toDays_lt_of_year_lt h
    | year y => exact (Nat.lt_irrefl _ h).elim
  | date d m y looped =>
    cases p <;> cases y <;> simp only [Above] at habove
    exact (Nat.lt_irrefl _ h).elim
  | monthDay d looped =>
    cases p <;> simp only [Above] at habove
    · exact hyears h
    · exact (Nat.lt_irrefl _ h).elim
  | weekday n looped =>
    cases p <;> simp only [Above] at habove
    have hlt := Date.toDays_lt_of_year_lt h
    have ht := holdsAt_weekday.1 ht
    have hu := holdsAt_weekday.1 hu
    have htdays := t.date.toDays_eq_weekIndex
    have hudays := u.date.toDays_eq_weekIndex
    simp only [RecursBetween, cycleIndex]
    omega
  | month n looped =>
    cases p <;> simp only [Above] at habove
    exact (Nat.lt_irrefl _ h).elim
  | year y => cases p <;> simp only [Above] at habove

section Moves

theorem exists_monthDay (t : DateTime) {d : Int} (looped fenced : Bool) (hd : 1 ≤ d) :
    ∃ m, (monthDay d looped).moveTo? t fenced = some m := by
  obtain ⟨date, hdate⟩ := Date.ofClamped?_isSome t.date.year_bounds t.date.month_bounds hd
  exact ⟨t.onDate date, by rw [moveTo?, hdate]; rfl⟩

theorem exists_month (t : DateTime) {n : Nat} (looped fenced : Bool) (hn : 1 ≤ n ∧ n ≤ 12) :
    ∃ m, (month n looped).moveTo? t fenced = some m := by
  have hlength := daysInMonth_bounds t.date.year hn
  have hyear := t.date.year_bounds
  have hfirst : IsDate t.date.year n 1 :=
    ⟨hyear.1, hyear.2, hn.1, hn.2, Nat.le_refl 1, by omega⟩
  obtain ⟨date, hdate⟩ := Date.of?_isSome hfirst
  exact ⟨t.onDate date, by rw [moveTo?, show (1 : Int) = (1 : Nat) from rfl, hdate]; rfl⟩

theorem exists_date (t : DateTime) {d : Int} {n : Nat} (looped fenced : Bool) (hd : 1 ≤ d)
    (hn : 1 ≤ n ∧ n ≤ 12) :
    ∃ m, (date d n none looped).moveTo? t fenced = some m := by
  obtain ⟨date, hdate⟩ := Date.ofClamped?_isSome t.date.year_bounds hn hd
  exact ⟨t.onDate date, by rw [moveTo?, Option.getD_none, hdate]; rfl⟩

theorem exists_year (t : DateTime) {y : Nat} (fenced : Bool) (hy : firstYear ≤ y ∧ y ≤ lastYear) :
    ∃ m, (year y).moveTo? t fenced = some m := by
  have hlength := @daysInMonth_bounds 1 y (by omega)
  have hfirst : IsDate y 1 1 := ⟨hy.1, hy.2, by omega, by omega, by omega, by omega⟩
  obtain ⟨date, hdate⟩ := Date.of?_isSome hfirst
  exact ⟨t.onDate date, by
    rw [moveTo?, show (1 : Int) = (1 : Nat) from rfl, hdate]; rfl⟩

/-- From the first day of a month, a weekday is moved to within the month if a later date lies
on it. -/
theorem exists_toWeekday?_of_first {n : Int} (hfirst : t.date.day = 1)
    (hu : (u.date.weekday : Int) = n) (hle : t.date.toDays ≤ u.date.toDays) :
    ∃ m, toWeekday? t n true = some m ∧ m.date.toDays ≤ u.date.toDays := by
  have hweekday := t.date.weekday_bounds
  have huweekday := u.date.weekday_bounds
  have htdays := t.date.toDays_eq_weekIndex
  have hudays := u.date.toDays_eq_weekIndex
  have hstart := t.date.toDays_eq
  have hindex := t.date.monthIndex_bounds
  have hlength := Date.monthLength_bounds t.date.monthIndex
  by_cases hn : t.date.weekday ≤ u.date.weekday
  · obtain ⟨m, hm, hdays⟩ := DateTime.addDays?_isSome_of_le (t := t) (u := u)
      (u.date.weekday - t.date.weekday) (by omega)
    have hmonth : m.date.monthIndex = t.date.monthIndex :=
      Date.monthIndex_eq_of_bounds hindex.1 (by omega) (by omega)
    refine ⟨m, ?_, by omega⟩
    rw [toWeekday?, show n - (t.weekday : Int) = (u.date.weekday - t.date.weekday : Nat) by
      rw [DateTime.weekday]; omega, hm]
    simp [hmonth]
  · obtain ⟨date, hdate⟩ := Date.addDays?_isSome (d := t.date)
      ((u.date.weekday : Int) - t.date.weekday) (by omega)
      (by have := t.date.toDays_lt_dayCount; omega)
    have hdays := Date.addDays?_eq_some_iff.1 hdate
    have hbefore : date.monthIndex < t.date.monthIndex := by
      rcases Nat.lt_or_ge date.monthIndex t.date.monthIndex with hlt | hge
      · exact hlt
      · have hmono := Date.monthStart_mono hindex.1 hge
        have hdate := date.toDays_eq
        omega
    obtain ⟨m, hm, hmdays⟩ := DateTime.addDays?_isSome_of_le (t := t.onDate date) (u := u)
      7 (by rw [DateTime.date_onDate]; omega)
    rw [DateTime.date_onDate] at hmdays
    refine ⟨m, ?_, by omega⟩
    have hmoved : t.addDays? (n - (t.weekday : Int)) = some (t.onDate date) := by
      rw [← hu, DateTime.addDays?, DateTime.weekday, hdate]
      rfl
    simpa [toWeekday?, hmoved, hbefore] using hm

/-- Within its week, a weekday is reached by a move that does not leave the calendar if a date in
that week or a later one lies on it. -/
theorem exists_toWeekday?_of_weekIndex_le {n : Int} (hu : (u.date.weekday : Int) = n)
    (hle : t.date.weekIndex ≤ u.date.weekIndex) :
    ∃ m, toWeekday? t n false = some m ∧ m.date.toDays ≤ u.date.toDays := by
  have hweekday := t.date.weekday_bounds
  have htdays := t.date.toDays_eq_weekIndex
  have hudays := u.date.toDays_eq_weekIndex
  have hbounds := u.date.weekday_bounds
  have hlast := u.date.toDays_lt_dayCount
  obtain ⟨date, hdate⟩ := Date.addDays?_isSome (d := t.date) (n - t.date.weekday)
    (by omega) (by omega)
  have hdays := Date.addDays?_eq_some_iff.1 hdate
  exact ⟨t.onDate date, toWeekday?_unfenced.2 ⟨hdays, rfl⟩, by rw [DateTime.date_onDate]; omega⟩

theorem eq_weekday_of_kind (hp : p.kind = .weekday) : ∃ n looped, p = weekday n looped := by
  cases p with
  | weekday n looped => exact ⟨n, looped, rfl⟩
  | time clock inverted => cases inverted <;> simp [kind] at hp
  | _ => simp [kind] at hp

/-- A move onto a point does not pass an instant on it that lies in the same cycle or a later one.
A fenced weekday leaves its week. -/
theorem exists_moveTo?_le_of_cycleIndex_le (hu : p.holdsAt u = true)
    (hle : p.cycleIndex t.date ≤ p.cycleIndex u.date) (hfenced : fenced = true → p.kind ≠ .weekday) :
    ∃ m, p.moveTo? t fenced = some m ∧ m.date.toDays ≤ u.date.toDays := by
  have humonths := u.date.month_bounds
  have hudays := u.date.day_bounds
  cases p with
  | time clock inverted => exact ⟨t.atTime clock, rfl, hle⟩
  | date d m y looped =>
    obtain ⟨huyear, humonth, huday⟩ := holdsAt_date.1 hu
    cases y with
    | none =>
      subst humonth
      obtain ⟨moved, hmoved⟩ := exists_date t (d := d) looped fenced (by omega) humonths
      obtain ⟨⟨hyear, hmonth, hday⟩, -⟩ := moveTo?_date.1 hmoved
      have hholds : (date d u.date.month none looped).holdsAt moved = true :=
        holdsAt_date.2 ⟨nofun, hmonth, hday⟩
      have hcycle : moved.date.year ≤ u.date.year :=
        Nat.le_trans (Nat.le_of_eq (Int.ofNat.inj hyear)) hle
      exact ⟨moved, hmoved, toDays_le_of_cycleIndex_le (p := date d u.date.month none looped)
        trivial hholds hu hcycle⟩
    | some y =>
      exact ⟨t.onDate u.date, moveTo?_date.2 ⟨⟨huyear y rfl, humonth, huday⟩, rfl⟩, Nat.le_refl _⟩
  | monthDay d looped =>
    have huday := holdsAt_monthDay.1 hu
    obtain ⟨moved, hmoved⟩ := exists_monthDay t (d := d) looped fenced (by omega)
    obtain ⟨⟨hindex, hday⟩, -⟩ := moveTo?_monthDay.1 hmoved
    have hholds : (monthDay d looped).holdsAt moved = true := holdsAt_monthDay.2 hday
    have hcycle : moved.date.monthIndex ≤ u.date.monthIndex :=
      Nat.le_trans (Nat.le_of_eq hindex) hle
    exact ⟨moved, hmoved, toDays_le_of_cycleIndex_le (p := monthDay d looped) trivial hholds hu hcycle⟩
  | weekday n looped =>
    have huweekday := holdsAt_weekday.1 hu
    cases fenced with
    | true => exact absurd rfl (hfenced rfl)
    | false => exact exists_toWeekday?_of_weekIndex_le huweekday hle
  | month n looped =>
    have humonth := holdsAt_month.1 hu
    subst humonth
    obtain ⟨moved, hmoved⟩ := exists_month t looped fenced humonths
    obtain ⟨⟨hyear, hmonth, hday⟩, -⟩ := moveTo?_month.1 hmoved
    refine ⟨moved, hmoved, Date.toDays_le_of_first hday ?_⟩
    have hyears : t.date.year ≤ u.date.year := hle
    unfold Date.monthIndex
    omega
  | year y =>
    have huyear := holdsAt_year.1 hu
    subst huyear
    obtain ⟨moved, hmoved⟩ := exists_year t fenced u.date.year_bounds
    obtain ⟨⟨hyear, hmonth, hday⟩, -⟩ := moveTo?_year.1 hmoved
    refine ⟨moved, hmoved, Date.toDays_le_of_first hday ?_⟩
    unfold Date.monthIndex
    omega

/-- A move onto a point does not pass an instant on it. For a fenced weekday this holds on the
first day of a month, where such a move starts. -/
theorem exists_moveTo?_le (hu : p.holdsAt u = true) (hle : t.date.toDays ≤ u.date.toDays)
    (hfenced : fenced = true → p.kind = .weekday → t.date.day = 1 ∨ p.holdsAt t = true) :
    ∃ m, p.moveTo? t fenced = some m ∧ m.date.toDays ≤ u.date.toDays := by
  by_cases hweekday : fenced = true ∧ p.kind = .weekday
  · obtain ⟨rfl, hkind⟩ := hweekday
    have hstart := hfenced rfl hkind
    obtain ⟨n, looped, rfl⟩ := eq_weekday_of_kind hkind
    rcases hstart with hfirst | ht
    · exact exists_toWeekday?_of_first hfirst (holdsAt_weekday.1 hu) hle
    · exact ⟨t, toWeekday?_eq_self (holdsAt_weekday.1 ht), hle⟩
  · exact exists_moveTo?_le_of_cycleIndex_le hu (cycleIndex_le_of_toDays_le hle)
      fun htrue hkind => hweekday ⟨htrue, hkind⟩

/-- Below a month, moves stay in the month. -/
theorem monthIndex_of_moveTo? {n : Int} {looped : Bool} (habove : (month n looped).Above q)
    (hq : q.WeekdayExists) (hfenced : q.kind = .weekday → fenced = true)
    (h : q.moveTo? t fenced = some m) : m.date.monthIndex = t.date.monthIndex := by
  cases q with
  | time clock inverted => exact Option.some.inj h ▸ rfl
  | monthDay d looped => exact (moveTo?_monthDay.1 h).1.1
  | weekday n looped =>
    obtain rfl : fenced = true := hfenced rfl
    exact (toWeekday?_fenced hq h).1
  | date | month | year => simp only [Above] at habove

/-- A weekday stands below nothing but a month. -/
theorem Above.eq_month_of_weekday (habove : p.Above q) (hq : q.kind = .weekday) :
    ∃ n looped, p = month n looped := by
  obtain ⟨n, looped, rfl⟩ := eq_weekday_of_kind hq
  cases p <;> simp only [Above] at habove
  exact ⟨_, _, rfl⟩

/-- Bringing an instant back onto a weekday moves it forward by less than a week. -/
theorem toDays_le_of_realign? (hp : p.WeekdayExists) (h : p.realign? t = some m) :
    m.date.toDays ≤ t.date.toDays + 6 := by
  cases p with
  | weekday n looped =>
    have hweekday := t.date.weekday_bounds
    rw [realign?_weekday] at h
    obtain ⟨-, -, hdays⟩ := toWeekday?_fenced hp h
    obtain ⟨hlow, hhigh⟩ := hp
    omega
  | _ => exact Option.some.inj h ▸ Nat.le_add_right ..

/-- Below a day there is only the time of day. -/
theorem isTime_of_above (hp : p.IsDay) (habove : p.Above q) : q.isTime = true := by
  cases p with
  | time | month | year => exact hp.elim
  | date d m y looped => cases q <;> cases y <;> simp_all [Above, isTime]
  | monthDay | weekday => cases q <;> simp_all [Above, isTime]

theorem date_of_moveTo?_time (hq : q.isTime = true) (h : q.moveTo? t fenced = some m) :
    m.date = t.date := by
  cases q with
  | time clock inverted => exact Option.some.inj h ▸ rfl
  | _ => exact absurd hq nofun

/-- A move onto a point stays in its cycle, unless it is a weekday that is fenced. -/
theorem cycleIndex_of_moveTo? (hp : p.WeekdayExists) (hfenced : fenced = true → p.kind ≠ .weekday)
    (h : p.moveTo? t fenced = some m) : p.cycleIndex m.date = p.cycleIndex t.date := by
  cases p with
  | time clock inverted => rw [date_of_moveTo?_time rfl h]
  | date d n y looped =>
    cases y with
    | none => exact Int.ofNat.inj (moveTo?_date.1 h).1.1
    | some y => rfl
  | monthDay d looped => exact (moveTo?_monthDay.1 h).1.1
  | weekday n looped =>
    cases fenced with
    | true => exact absurd rfl (hfenced rfl)
    | false =>
      have hdays := (toWeekday?_unfenced.1 h).1
      have htdays := t.date.toDays_eq_weekIndex
      have hbounds := t.date.weekday_bounds
      obtain ⟨hlow, hhigh⟩ := hp
      simp only [cycleIndex, Date.weekIndex] at *
      omega
  | month n looped => exact (moveTo?_month.1 h).1.1
  | year y => rfl

/-- A move onto a point below stays in the cycle. -/
theorem Above.cycleIndex_of_moveTo? (habove : p.Above q) (hq : q.WeekdayExists)
    (hfenced : q.kind = .weekday → fenced = true) (h : q.moveTo? t fenced = some m) :
    p.cycleIndex m.date = p.cycleIndex t.date := by
  have hday (hday : p.IsDay) : p.cycleIndex m.date = p.cycleIndex t.date := by
    rw [date_of_moveTo?_time (isTime_of_above hday habove) h]
  cases p with
  | time clock inverted => exact habove.elim
  | date | monthDay | weekday => exact hday trivial
  | month n looped =>
    exact (Date.monthIndex_eq_iff.1 (monthIndex_of_moveTo? habove hq hfenced h)).1
  | year y => rfl

/-- One unit by which a point recurs leads to its next cycle. -/
theorem cycleIndex_of_addSpan? {unit : TimeUnit} (hcycle : p.cycle? = some unit)
    (h : t.addSpan? unit 1 = some m) : p.cycleIndex m.date = p.cycleIndex t.date + 1 := by
  have hyear (h : t.addMonths? (12 * 1) = some m) : m.date.year = t.date.year + 1 :=
    Int.ofNat.inj (DateTime.year_of_addMonths? h)
  cases p with
  | time clock inverted =>
    obtain rfl := Option.some.inj hcycle
    have hdays := (DateTime.addDays?_eq_some_iff.1 h).1
    simp only [cycleIndex]
    omega
  | date d n y looped =>
    cases y with
    | none =>
      obtain rfl := Option.some.inj hcycle
      exact hyear h
    | some y => cases hcycle
  | monthDay d looped =>
    obtain rfl := Option.some.inj hcycle
    have hindex := (DateTime.addMonths?_eq_some_iff.1 h).1.1
    simp only [cycleIndex]
    omega
  | weekday n looped =>
    obtain rfl := Option.some.inj hcycle
    have hdays := (DateTime.addDays?_eq_some_iff.1 h).1
    simp only [cycleIndex, Date.weekIndex]
    omega
  | month n looped =>
    obtain rfl := Option.some.inj hcycle
    exact hyear h
  | year y => cases hcycle

/-- A move forward by units at least as long as the one by which a point recurs leaves its cycle. -/
theorem cycleIndex_lt_of_addSpan? {unit longer : TimeUnit} {count : Int}
    (hcycle : p.cycle? = some unit) (hlonger : longer.rank ≤ unit.rank) (hcount : 0 < count)
    (h : t.addSpan? longer count = some m) : p.cycleIndex t.date < p.cycleIndex m.date := by
  have hdays (h : t.addDays? count = some m) := (DateTime.addDays?_eq_some_iff.1 h).1
  have hweeks (h : t.addDays? (7 * count) = some m) := (DateTime.addDays?_eq_some_iff.1 h).1
  have hmonths (h : t.addMonths? count = some m) :=
    DateTime.toDays_add_le_of_addMonths? hcount h
  have hyears (h : t.addMonths? (12 * count) = some m) :=
    DateTime.toDays_add_le_of_addMonths? (by omega : 0 < 12 * count) h
  have hyear (hlonger : longer = .year) : t.date.year < m.date.year := by
    subst hlonger
    have hmoved : (m.date.year : Int) = t.date.year + count := DateTime.year_of_addMonths? h
    omega
  cases p with
  | time clock inverted =>
    obtain rfl := Option.some.inj hcycle
    simp only [cycleIndex]
    cases longer with
    | year => exact Nat.lt_of_lt_of_le (by omega) (hyears h).2
    | month => exact Nat.lt_of_lt_of_le (by omega) (hmonths h).2
    | week => have hmoved := hweeks h; omega
    | day => have hmoved := hdays h; omega
    | _ => simp [TimeUnit.rank] at hlonger
  | weekday n looped =>
    obtain rfl := Option.some.inj hcycle
    simp only [cycleIndex, Date.weekIndex]
    cases longer with
    | year => have hmoved := (hyears h).2; omega
    | month => have hmoved := (hmonths h).2; omega
    | week => have hmoved := hweeks h; omega
    | _ => simp [TimeUnit.rank] at hlonger
  | monthDay d looped =>
    obtain rfl := Option.some.inj hcycle
    cases longer with
    | year => exact (hyears h).1
    | month => exact (hmonths h).1
    | _ => simp [TimeUnit.rank] at hlonger
  | date d n y looped =>
    cases y with
    | none =>
      obtain rfl := Option.some.inj hcycle
      cases longer with
      | year => exact hyear rfl
      | _ => simp [TimeUnit.rank] at hlonger
    | some y => cases hcycle
  | month n looped =>
    obtain rfl := Option.some.inj hcycle
    cases longer with
    | year => exact hyear rfl
    | _ => simp [TimeUnit.rank] at hlonger
  | year y => cases hcycle

/-- The number of days that moves onto a point and those below it can lead back. -/
def lag : Point → Nat
  | time .. | year _ => 0
  | weekday .. => 6
  | monthDay .. => 30
  | date .. => 365
  | month .. => 395

theorem lag_le (p : Point) : p.lag ≤ 395 := by cases p <;> simp [lag]

/-- A move onto a point without a year leads back by the days of its lag at most, less those of
the point below it. -/
theorem toDays_le_of_moveTo? (hp : p.WeekdayExists) (hfixed : p.isAbsolute = false)
    (h : p.moveTo? t fenced = some m) :
    t.date.toDays ≤ m.date.toDays + p.lag ∧
      ∀ q, p.Above q → t.date.toDays + q.lag ≤ m.date.toDays + p.lag := by
  have hday (hday : p.IsDay) (hle : t.date.toDays ≤ m.date.toDays + p.lag) :
      ∀ q, p.Above q → t.date.toDays + q.lag ≤ m.date.toDays + p.lag := by
    intro q hq
    have htime := isTime_of_above hday hq
    cases q with
    | time => exact hle
    | _ => exact absurd htime nofun
  cases p with
  | time clock inverted =>
    rw [date_of_moveTo?_time rfl h]
    exact ⟨Nat.le_refl _, fun q hq => hq.elim⟩
  | year y => exact absurd hfixed nofun
  | date d n y looped =>
    cases y with
    | some y => exact absurd hfixed nofun
    | none =>
      have hle := Date.toDays_le_of_year_eq (Int.ofNat.inj (moveTo?_date.1 h).1.1).symm
      exact ⟨hle, hday trivial hle⟩
  | monthDay d looped =>
    have hindex := (moveTo?_monthDay.1 h).1.1
    have hlast := t.date.day_le_monthLength
    have hlength := Date.monthLength_bounds t.date.monthIndex
    have hle : t.date.toDays ≤ m.date.toDays + 30 := by
      rw [t.date.toDays_eq, m.date.toDays_eq, hindex]
      omega
    exact ⟨hle, hday trivial hle⟩
  | weekday n looped =>
    have hle : t.date.toDays ≤ m.date.toDays + 6 := by
      have hweekday := t.date.weekday_bounds
      obtain ⟨hlow, hhigh⟩ := hp
      cases fenced with
      | false =>
        have hdays := (toWeekday?_unfenced.1 h).1
        omega
      | true =>
        obtain ⟨-, -, hdays⟩ := toWeekday?_fenced ⟨hlow, hhigh⟩ h
        omega
    exact ⟨hle, hday trivial hle⟩
  | month n looped =>
    have hle := Date.toDays_le_of_year_eq (moveTo?_month.1 h).1.1.symm
    refine ⟨Nat.le_trans hle (by simp [lag]), fun q hq => ?_⟩
    have hlag : q.lag ≤ 30 := by cases q <;> simp_all [Above, lag]
    simp only [lag] at *
    omega

end Moves

section Advance

variable {a : DateTime}

/-- The instant that an advance of a point leads to, if it lies in the calendar. -/
def inNextCycle? (p : Point) (t : DateTime) : Option DateTime :=
  match p with
  | time .. => t.addDays? 1
  | date .. | month .. => (t.addMonths? 12).bind (p.moveTo? · false)
  | monthDay .. => (t.addMonths? 1).bind (p.moveTo? · false)
  | weekday .. => t.addDays? 7
  | year _ => none

/-- An advance of a point with a cycle can only fail at the end of the calendar. -/
theorem advance_eq (h : p.cycle?.isSome = true) : p.advance t =
    match p.inNextCycle? t with
    | some a => .ok a
    | none => .error .outOfRange := by
  cases p with
  | year y => exact absurd h nofun
  | time | weekday =>
    simp only [advance, inNextCycle?]
    generalize t.addDays? _ = moved?
    cases moved? <;> rfl
  | monthDay | date | month =>
    simp only [advance, inNextCycle?, bind]
    generalize (t.addMonths? _).bind _ = moved?
    cases moved? <;> rfl

/-- A point that recurs can be advanced, to an instant that does not pass any later one on the
point. -/
theorem exists_inNextCycle?_le (ht : p.holdsAt t = true) (hu : p.holdsAt u = true)
    (h : p.RecursBetween t.date u.date) :
    ∃ a, p.inNextCycle? t = some a ∧ a.date.toDays ≤ u.date.toDays := by
  -- From the next cycle the point is reached by a move that does not pass what lies on it.
  have hmove {months : Int} {b : DateTime} (hb : t.addMonths? months = some b)
      (hle : p.cycleIndex b.date ≤ p.cycleIndex u.date) :
      ∃ a, (t.addMonths? months).bind (p.moveTo? · false) = some a ∧
        a.date.toDays ≤ u.date.toDays := by
    obtain ⟨a, ha, hau⟩ : ∃ a, p.moveTo? b false = some a ∧ a.date.toDays ≤ u.date.toDays :=
      exists_moveTo?_le_of_cycleIndex_le hu hle nofun
    exact ⟨a, Option.bind_eq_some_iff.2 ⟨b, hb, ha⟩, hau⟩
  have hyear (hmonth : t.date.month = u.date.month) (hlt : t.date.year < u.date.year) :
      ∃ b, t.addMonths? 12 = some b ∧ b.date.year ≤ u.date.year := by
    obtain ⟨b, hb, -⟩ := DateTime.addMonths?_isSome_of_le (t := t) (u := u) 12
      (by unfold Date.monthIndex; omega)
    have hnext : (b.date.year : Int) = t.date.year + 1 := DateTime.year_of_addMonths? hb
    exact ⟨b, hb, by omega⟩
  cases p with
  | time clock inverted =>
    obtain ⟨a, ha, hdays⟩ := DateTime.addDays?_isSome_of_le 1 h
    exact ⟨a, ha, hdays ▸ h⟩
  | weekday n looped =>
    have htweekday := holdsAt_weekday.1 ht
    have huweekday := holdsAt_weekday.1 hu
    have htdays := t.date.toDays_eq_weekIndex
    have hudays := u.date.toDays_eq_weekIndex
    simp only [RecursBetween, cycleIndex] at h
    obtain ⟨a, ha, hdays⟩ := DateTime.addDays?_isSome_of_le (t := t) (u := u) 7 (by omega)
    exact ⟨a, ha, by omega⟩
  | monthDay d looped =>
    obtain ⟨b, hb, hindex⟩ := DateTime.addMonths?_isSome_of_le (t := t) (u := u) 1 h
    exact hmove hb (Nat.le_trans (Nat.le_of_eq hindex) h)
  | date d m y looped =>
    cases y with
    | some y => exact (Nat.lt_irrefl _ h).elim
    | none =>
      have htmonth := (holdsAt_date.1 ht).2.1
      have humonth := (holdsAt_date.1 hu).2.1
      obtain ⟨b, hb, hle⟩ := hyear (Int.ofNat.inj (htmonth.trans humonth.symm)) h
      exact hmove hb hle
  | month n looped =>
    have htmonth := holdsAt_month.1 ht
    have humonth := holdsAt_month.1 hu
    obtain ⟨b, hb, hle⟩ := hyear (Int.ofNat.inj (htmonth.trans humonth.symm)) h
    exact hmove hb hle
  | year y => exact (Nat.lt_irrefl _ h).elim

/-- A point without a cycle does not recur. -/
theorem not_recursBetween_of_cycle? {d e : Date} (h : p.cycle? = none) :
    ¬ p.RecursBetween d e := by
  cases p with
  | date d m y looped => cases y <;> simp_all [cycle?, RecursBetween, cycleIndex]
  | year => exact Nat.lt_irrefl 0
  | _ => exact absurd h nofun

/-- The instant in the next cycle lies on the point already, except for the time of day. -/
theorem moveTo?_inNextCycle? (ht : p.holdsAt t = true) (hp : p.isTime = false)
    (h : p.inNextCycle? t = some a) : p.moveTo? a fenced = some a := by
  cases p with
  | time | year => simp_all [isTime, inNextCycle?]
  | weekday n looped =>
    have hdays := (DateTime.addDays?_eq_some_iff.1 h).1
    have htweekday := holdsAt_weekday.1 ht
    refine toWeekday?_eq_self ?_
    unfold Date.weekday at *
    omega
  | monthDay d looped =>
    obtain ⟨b, -, hmoved⟩ := Option.bind_eq_some_iff.1 h
    exact moveTo?_monthDay.2 ⟨⟨rfl, (moveTo?_monthDay.1 hmoved).1.2⟩, rfl⟩
  | date d m y looped =>
    obtain ⟨b, -, hmoved⟩ := Option.bind_eq_some_iff.1 h
    obtain ⟨⟨hyear, hdate⟩, -⟩ := moveTo?_date.1 hmoved
    refine moveTo?_date.2 ⟨⟨?_, hdate⟩, rfl⟩
    cases y with
    | none => rfl
    | some y => exact hyear
  | month n looped =>
    obtain ⟨b, -, hmoved⟩ := Option.bind_eq_some_iff.1 h
    exact moveTo?_month.2 ⟨⟨rfl, (moveTo?_month.1 hmoved).1.2⟩, rfl⟩

/-- An advance leads to a later cycle. -/
theorem recursBetween_inNextCycle? (hcycle : p.cycle?.isSome = true)
    (h : p.inNextCycle? t = some a) : p.RecursBetween t.date a.date := by
  have hnext {unit : TimeUnit} {b : DateTime} (hunit : p.cycle? = some unit)
      (hb : t.addSpan? unit 1 = some b) (hindex : p.cycleIndex a.date = p.cycleIndex b.date) :
      p.RecursBetween t.date a.date := by
    rw [RecursBetween, hindex, cycleIndex_of_addSpan? hunit hb]
    exact Nat.lt_succ_self _
  cases p with
  | time clock inverted => exact hnext rfl h rfl
  | weekday n looped => exact hnext rfl h rfl
  | monthDay d looped =>
    obtain ⟨b, hb, hmoved⟩ := Option.bind_eq_some_iff.1 h
    exact hnext rfl hb (cycleIndex_of_moveTo? trivial nofun hmoved)
  | date d m y looped =>
    cases y with
    | some y => exact absurd hcycle nofun
    | none =>
      obtain ⟨b, hb, hmoved⟩ := Option.bind_eq_some_iff.1 h
      exact hnext rfl hb (cycleIndex_of_moveTo? trivial nofun hmoved)
  | month n looped =>
    obtain ⟨b, hb, hmoved⟩ := Option.bind_eq_some_iff.1 h
    exact hnext rfl hb (cycleIndex_of_moveTo? trivial nofun hmoved)
  | year y => exact absurd hcycle nofun

end Advance

end Point

end TimePhrase
