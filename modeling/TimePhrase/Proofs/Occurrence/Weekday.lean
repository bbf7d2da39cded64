import TimePhrase.Proofs.Occurrence.Pace
import TimePhrase.Proofs.Part.Recurrence

/-!
# Weekdays within their month

A fenced move to a weekday stays in the month of the instant, at most six days away, and bringing
an instant back onto a weekday is the same move. All it takes is that the calendar has the whole
week of the instant, which only the last days of the calendar lack. From the day after a weekday
the move leads back to that day or to the week behind it.
-/

namespace TimePhrase

/-- The calendar has all seven days of the week that the date lies in. -/
def Date.HasWholeWeek (d : Date) : Prop :=
  ∀ n : Int, 1 ≤ n ∧ n ≤ 7 → ∃ e, d.addDays? (n - d.weekday) = some e

/-- The calendar begins with a Monday, so only its last week lacks days. -/
theorem Date.hasWholeWeek_iff {d : Date} :
    d.HasWholeWeek ↔ d.toDays + 7 - d.weekday < dayCount := by
  have hdays := d.toDays_eq_weekIndex
  have hweekday := d.weekday_bounds
  constructor
  · intro h
    obtain ⟨sunday, hsunday⟩ := h 7 (by decide)
    have hlast := sunday.toDays_lt_dayCount
    have hmoved := addDays?_eq_some_iff.1 hsunday
    omega
  · intro h n hn
    exact addDays?_isSome _ (by omega) (by omega)

instance decidableHasWholeWeek (d : Date) : Decidable d.HasWholeWeek :=
  decidable_of_iff _ Date.hasWholeWeek_iff.symm

namespace Point

variable {t u : DateTime} {n : Int} {looped : Bool}

/-- A fenced move to a weekday succeeds if the calendar has the week of the instant. -/
theorem exists_toWeekday?_fenced (hn : 1 ≤ n ∧ n ≤ 7) (hweek : t.date.HasWholeWeek) :
    ∃ u, toWeekday? t n true = some u := by
  have hfirst := t.date.monthIndex_bounds.1
  have hlength := Date.monthLength_bounds t.date.monthIndex
  have hend := t.date.monthStart_add_le_dayCount
  obtain ⟨moved, hmoved⟩ : ∃ moved, t.addDays? (n - t.weekday) = some moved := by
    obtain ⟨date, hdate⟩ := hweek n hn
    exact ⟨t.onDate date, by rw [DateTime.addDays?, DateTime.weekday, hdate]; rfl⟩
  simp only [toWeekday?, hmoved, bind, Option.bind, if_true]
  by_cases hbefore : moved.date.monthIndex < t.date.monthIndex
  · have hstart := mt (Date.monthStart_le_iff hfirst).1 (Nat.not_le.2 hbefore)
    rw [if_pos hbefore]
    exact DateTime.addDays?_isSome _ (by omega) (by omega)
  by_cases hbehind : t.date.monthIndex < moved.date.monthIndex
  · have hstart := (Date.monthStart_le_iff moved.date.monthIndex_bounds.1).2 (Nat.le_refl _)
    have hnext := Date.monthStart_add_le hfirst hbehind
    have hlast := moved.date.toDays_lt_dayCount
    rw [if_neg hbefore, if_pos hbehind]
    exact DateTime.addDays?_isSome _ (by omega) (by omega)
  · rw [if_neg hbefore, if_neg hbehind]
    exact ⟨moved, rfl⟩

/-- The instant on a weekday within the month of another one, at most six days away from it and at
the same time of day. -/
structure IsInMonthOn (u t : DateTime) (n : Int) : Prop where
  year : u.date.year = t.date.year
  month : u.date.month = t.date.month
  weekday : (u.weekday : Int) = n
  near : (u.date.toDays : Int) ≤ t.date.toDays + 6 ∧ (t.date.toDays : Int) ≤ u.date.toDays + 6
  time : u = t.onDate u.date

theorem isInMonthOn_of_toWeekday? (hn : 1 ≤ n ∧ n ≤ 7) (h : toWeekday? t n true = some u) :
    IsInMonthOn u t n := by
  have hweekday := t.date.weekday_bounds
  obtain ⟨hindex, htime, hdays⟩ := toWeekday?_fenced hn h
  obtain ⟨hyear, hmonth⟩ := Date.monthIndex_eq_iff.1 hindex
  exact ⟨hyear, hmonth, weekday_of_toWeekday? hn h, by omega, htime⟩

/-- A second time, bringing an instant back onto a weekday changes nothing. -/
theorem realign?_bind_realign? (hn : 1 ≤ n ∧ n ≤ 7) (t : DateTime) :
    ((weekday n looped).realign? t).bind (weekday n looped).realign? =
      (weekday n looped).realign? t := by
  cases h : (weekday n looped).realign? t with
  | none => rfl
  | some u =>
    rw [realign?_weekday] at h
    exact realign?_eq_self (p := weekday n looped)
      (holdsAt_weekday.2 (weekday_of_toWeekday? hn h))

/-- A fenced move to a weekday leads to an instant on it in the same month, at most six days away,
wherever the calendar has the whole week, and bringing an instant back onto a weekday is such a
move. It is done once and for all, leaves instants on the weekday in place, and leads from the day
after one of them to that instant or to the one a week behind it. -/
theorem weekday_inMonth {n : Int} {looped : Bool} (hn : 1 ≤ n ∧ n ≤ 7) :
    (∀ t : DateTime, t.date.HasWholeWeek → ∃ u, (weekday n looped).moveTo? t true = some u ∧
      (weekday n looped).realign? t = some u ∧ IsInMonthOn u t n) ∧
    (∀ t : DateTime, ((weekday n looped).realign? t).bind (weekday n looped).realign? =
      (weekday n looped).realign? t) ∧
    (∀ t : DateTime, (t.weekday : Int) = n → (weekday n looped).realign? t = some t) ∧
    ∀ t after : DateTime, (t.weekday : Int) = n → t.addDays? 1 = some after →
      after.date.HasWholeWeek → ∃ u, (weekday n looped).realign? after = some u ∧
        if t.date.LeadsToNextWeek then t.addDays? 7 = some u else u = t := by
  refine ⟨fun t hweek => ?_, realign?_bind_realign? hn, fun t ht => ?_, ?_⟩
  · obtain ⟨u, hu⟩ := exists_toWeekday?_fenced hn hweek
    exact ⟨u, hu, (realign?_weekday t n looped).trans hu, isInMonthOn_of_toWeekday? hn hu⟩
  · exact realign?_eq_self (holdsAt_weekday.2 ht)
  · intro t after ht hafter hweek
    obtain ⟨u, hu⟩ := exists_toWeekday?_fenced hn hweek
    have hrealign := (realign?_weekday after n looped).trans hu
    have hdays := toDays_of_realign?_dayAfter ht hafter hrealign
    have htime : u = t.onDate u.date := by
      rw [onDate_of_toWeekday? hu, (DateTime.addDays?_eq_some_iff.1 hafter).2]
      rfl
    refine ⟨u, hrealign, ?_⟩
    split
    · rename_i hleads
      rw [if_pos hleads] at hdays
      exact DateTime.addDays?_eq_some_iff.2 ⟨hdays, htime⟩
    · rename_i hleads
      rw [if_neg hleads, Int.add_zero] at hdays
      rw [htime, Date.eq_of_toDays_eq (Int.ofNat.inj hdays), DateTime.onDate_date]

/-- Sunday 30 June 2024 ends its month: from the Monday behind it, the Sunday in July is found. -/
theorem weekday_inMonth_endOfJune :
    let sunday : DateTime := ⟨⟨2024, 6, 30, by decide⟩, 9, 0, 0, 0⟩
    let monday : DateTime := ⟨⟨2024, 7, 1, by decide⟩, 9, 0, 0, 0⟩
    (∃ u, (weekday 7 false).moveTo? monday true = some u ∧ IsInMonthOn u monday 7) ∧
      (weekday 7 false).realign? sunday = some sunday ∧
      ∃ u, (weekday 7 false).realign? monday = some u ∧ sunday.addDays? 7 = some u := by
  intro sunday monday
  obtain ⟨hmove, -, hstay, hafter⟩ := @weekday_inMonth 7 false (by decide)
  have hweek : monday.date.HasWholeWeek := by decide
  obtain ⟨u, hu, -, hinMonth⟩ := hmove monday hweek
  refine ⟨⟨u, hu, hinMonth⟩, hstay sunday (by decide), ?_⟩
  simpa [show sunday.date.LeadsToNextWeek by decide] using
    hafter sunday monday (by decide) (by decide +kernel) hweek

end Point

end TimePhrase
