import TimePhrase.Part.Motion
import TimePhrase.Proofs.Calendar.DateTime
import TimePhrase.Proofs.Part.Range

/-!
# Where the moves of points lead

A point is held by the instants that are moved onto it. A point that stands above another one
in a plan stays held when the instant is moved onto the other one: `Point.Above` lists the
pairs for which that is so, and a valid expression has no others.
-/

namespace TimePhrase

namespace Point

section HoldsAt

variable {t : DateTime}

@[simp] theorem holdsAt_time {clock : TimeOfDay} {inverted : Bool} :
    (time clock inverted).holdsAt t = true ↔ t.timeOfDay = clock := by
  simp [holdsAt]

@[simp] theorem holdsAt_date {d m : Int} {y : Option Int} {looped : Bool} :
    (date d m y looped).holdsAt t = true ↔ (∀ n ∈ y, (t.date.year : Int) = n) ∧
      (t.date.month : Int) = m ∧ (t.date.day : Int) = min d (daysInMonth t.date.year t.date.month) := by
  have hyear : (y.all fun n => decide ((t.date.year : Int) = n)) = true ↔
      ∀ n ∈ y, (t.date.year : Int) = n := by
    cases y <;> simp
  simp only [holdsAt, Bool.and_eq_true, hyear, decide_eq_true_eq, and_assoc]
  constructor
  · rintro ⟨hy, rfl, hday⟩
    exact ⟨hy, rfl, hday⟩
  · rintro ⟨hy, rfl, hday⟩
    exact ⟨hy, rfl, hday⟩

@[simp] theorem holdsAt_monthDay {d : Int} {looped : Bool} :
    (monthDay d looped).holdsAt t = true ↔
      (t.date.day : Int) = min d (daysInMonth t.date.year t.date.month) := by
  simp [holdsAt]

@[simp] theorem holdsAt_weekday {n : Int} {looped : Bool} :
    (weekday n looped).holdsAt t = true ↔ (t.date.weekday : Int) = n := by
  rw [holdsAt, decide_eq_true_eq, DateTime.weekday]

@[simp] theorem holdsAt_month {m : Int} {looped : Bool} :
    (month m looped).holdsAt t = true ↔ (t.date.month : Int) = m := by
  simp [holdsAt]

@[simp] theorem holdsAt_year {y : Int} :
    (year y).holdsAt t = true ↔ (t.date.year : Int) = y := by
  simp [holdsAt]

end HoldsAt

section Weekday

variable {t u : DateTime} {n : Int} {fenced : Bool}

/-- Unfenced, an instant moves to the weekday of its week. -/
theorem toWeekday?_unfenced : toWeekday? t n false = some u ↔
    (u.date.toDays : Int) = t.date.toDays + (n - t.date.weekday) ∧ u = t.onDate u.date := by
  rw [← DateTime.addDays?_eq_some_iff]
  cases h : t.addDays? (n - t.date.weekday) <;>
    simp [toWeekday?, DateTime.weekday, h, bind, pure]

/-- Where a fenced move to a weekday leads, whether or not there is such a weekday: to the day of
that number in the week, a week later where that lies before the month and a week earlier where
it lies behind it. -/
theorem toDays_of_toWeekday?_fenced {base : Int}
    (hbase : base = t.date.toDays + (n - t.date.weekday))
    (h : toWeekday? t n true = some u) :
    base < Date.monthStart t.date.monthIndex ∧ (u.date.toDays : Int) = base + 7 ∨
      base < Date.monthStart t.date.monthIndex + Date.monthLength t.date.monthIndex ∧
        Date.monthStart t.date.monthIndex ≤ base ∧ (u.date.toDays : Int) = base ∨
      Date.monthStart t.date.monthIndex + Date.monthLength t.date.monthIndex ≤ base ∧
        (u.date.toDays : Int) = base - 7 := by
  have hmonth := t.date.monthIndex_bounds.1
  cases hmoved : t.addDays? (n - t.date.weekday) with
  | none => simp [toWeekday?, DateTime.weekday, hmoved, bind] at h
  | some moved =>
    have hdays := (DateTime.addDays?_eq_some_iff.1 hmoved).1
    have hstart := Date.monthStart_le_iff (d := moved.date) hmonth
    have hend := Date.monthStart_le_iff (d := moved.date) (Nat.le_succ_of_le hmonth)
    rw [Nat.succ_eq_add_one, Date.monthStart_succ hmonth] at hend
    simp only [toWeekday?, DateTime.weekday, hmoved, bind, Option.bind, if_true] at h
    split at h
    · have hu := (DateTime.addDays?_eq_some_iff.1 h).1
      omega
    · split at h
      · have hu := (DateTime.addDays?_eq_some_iff.1 h).1
        omega
      · obtain rfl : moved = u := Option.some.inj h
        omega

theorem toWeekday?_eq_self (h : (t.date.weekday : Int) = n) : toWeekday? t n fenced = some t := by
  have hstay : t.addDays? (n - t.weekday) = some t :=
    DateTime.addDays?_eq_some_iff.2 ⟨by rw [DateTime.weekday]; omega, rfl⟩
  cases fenced <;> simp [toWeekday?, hstay]

/-- A move to a weekday changes the date alone. -/
theorem onDate_of_toWeekday? (h : toWeekday? t n fenced = some u) : u = t.onDate u.date := by
  cases hmoved : t.addDays? (n - t.weekday) with
  | none => simp [toWeekday?, hmoved] at h
  | some moved =>
    have hdate : moved = t.onDate moved.date := (DateTime.addDays?_eq_some_iff.1 hmoved).2
    have hshift {count : Int} (hcount : moved.addDays? count = some u) :
        u = t.onDate u.date := by
      rw [(DateTime.addDays?_eq_some_iff.1 hcount).2, hdate]
      rfl
    simp only [toWeekday?, hmoved, bind, Option.bind, pure] at h
    split at h
    · split at h
      · exact hshift h
      · split at h
        · exact hshift h
        · exact Option.some.inj h ▸ hdate
    · exact Option.some.inj h ▸ hdate

/-- Fenced, an instant moves to the weekday of its week or, where that lies in another month,
of the week before or behind. It stays in its month. -/
theorem toWeekday?_fenced (hn : 1 ≤ n ∧ n ≤ 7) (h : toWeekday? t n true = some u) :
    u.date.monthIndex = t.date.monthIndex ∧ u = t.onDate u.date ∧
      ((u.date.toDays : Int) = t.date.toDays + (n - t.date.weekday) ∨
        (u.date.toDays : Int) = t.date.toDays + (n - t.date.weekday) + 7 ∧ n < t.date.weekday ∨
        (u.date.toDays : Int) = t.date.toDays + (n - t.date.weekday) - 7 ∧ t.date.weekday < n) := by
  have hweekday := t.date.weekday_bounds
  have hlength := Date.monthLength_bounds t.date.monthIndex
  have hday := t.date.day_le_monthLength
  have hpos := t.date.day_bounds.1
  have hdays := t.date.toDays_eq
  have hmoved := toDays_of_toWeekday?_fenced rfl h
  refine ⟨Date.monthIndex_eq_of_bounds t.date.monthIndex_bounds.1 ?_ ?_, onDate_of_toWeekday? h, ?_⟩
  · omega
  · omega
  · omega

/-- An instant that is moved to a weekday lies on it. -/
theorem weekday_of_toWeekday? (hn : 1 ≤ n ∧ n ≤ 7) (h : toWeekday? t n fenced = some u) :
    (u.date.weekday : Int) = n := by
  have hdays : (u.date.toDays : Int) = t.date.toDays + (n - t.date.weekday) ∨
      (u.date.toDays : Int) = t.date.toDays + (n - t.date.weekday) + 7 ∨
      (u.date.toDays : Int) = t.date.toDays + (n - t.date.weekday) - 7 := by
    cases fenced with
    | false => exact Or.inl (toWeekday?_unfenced.1 h).1
    | true =>
      obtain ⟨_, _, hdays | ⟨hdays, _⟩ | ⟨hdays, _⟩⟩ := toWeekday?_fenced hn h
      · exact Or.inl hdays
      · exact Or.inr (Or.inl hdays)
      · exact Or.inr (Or.inr hdays)
  unfold Date.weekday at *
  omega

end Weekday

variable {p q : Point} {t u : DateTime} {fenced : Bool}

theorem moveTo?_date {d m : Int} {y : Option Int} {looped : Bool} :
    (date d m y looped).moveTo? t fenced = some u ↔
      ((u.date.year : Int) = y.getD t.date.year ∧ (u.date.month : Int) = m ∧
        (u.date.day : Int) = min d (daysInMonth u.date.year u.date.month)) ∧
      u = t.onDate u.date := by
  simp only [moveTo?, Option.map_eq_some_iff, Date.ofClamped?_eq_some_iff]
  constructor
  · rintro ⟨date, hdate, rfl⟩
    exact ⟨hdate, rfl⟩
  · rintro ⟨hdate, hu⟩
    exact ⟨u.date, hdate, hu.symm⟩

theorem moveTo?_monthDay {d : Int} {looped : Bool} :
    (monthDay d looped).moveTo? t fenced = some u ↔
      (u.date.monthIndex = t.date.monthIndex ∧
        (u.date.day : Int) = min d (daysInMonth u.date.year u.date.month)) ∧
      u = t.onDate u.date := by
  have hu := u.date.month_bounds
  have ht := t.date.month_bounds
  have hindex : u.date.monthIndex = t.date.monthIndex ↔
      (u.date.year : Int) = t.date.year ∧ (u.date.month : Int) = t.date.month := by
    unfold Date.monthIndex
    omega
  simp only [moveTo?, Option.map_eq_some_iff, Date.ofClamped?_eq_some_iff, hindex]
  constructor
  · rintro ⟨date, ⟨hyear, hmonth, hday⟩, rfl⟩
    exact ⟨⟨⟨hyear, hmonth⟩, hday⟩, rfl⟩
  · rintro ⟨⟨⟨hyear, hmonth⟩, hday⟩, hu⟩
    exact ⟨u.date, ⟨hyear, hmonth, hday⟩, hu.symm⟩

theorem moveTo?_month {m : Int} {looped : Bool} :
    (month m looped).moveTo? t fenced = some u ↔
      (u.date.year = t.date.year ∧ (u.date.month : Int) = m ∧ u.date.day = 1) ∧
      u = t.onDate u.date := by
  simp only [moveTo?, Option.map_eq_some_iff, Date.of?_eq_some_iff]
  constructor
  · rintro ⟨date, ⟨hyear, hmonth, hday⟩, rfl⟩
    exact ⟨⟨Int.ofNat.inj hyear, hmonth, Int.ofNat.inj hday⟩, rfl⟩
  · rintro ⟨⟨hyear, hmonth, hday⟩, hu⟩
    exact ⟨u.date, ⟨congrArg Int.ofNat hyear, hmonth, congrArg Int.ofNat hday⟩, hu.symm⟩

theorem moveTo?_year {y : Int} :
    (year y).moveTo? t fenced = some u ↔
      ((u.date.year : Int) = y ∧ u.date.month = 1 ∧ u.date.day = 1) ∧ u = t.onDate u.date := by
  simp only [moveTo?, Option.map_eq_some_iff, Date.of?_eq_some_iff]
  constructor
  · rintro ⟨date, ⟨hyear, hmonth, hday⟩, rfl⟩
    exact ⟨⟨hyear, Int.ofNat.inj hmonth, Int.ofNat.inj hday⟩, rfl⟩
  · rintro ⟨⟨hyear, hmonth, hday⟩, hu⟩
    exact ⟨u.date, ⟨hyear, congrArg Int.ofNat hmonth, congrArg Int.ofNat hday⟩, hu.symm⟩

/-- The point is a time of day. -/
def isTime : Point → Bool
  | time .. => true
  | _ => false

/-- A move onto a point other than a time of day changes the date alone. -/
theorem onDate_of_moveTo? (hp : p.isTime = false) (h : p.moveTo? t fenced = some u) :
    u = t.onDate u.date := by
  cases p with
  | time clock inverted => simp [isTime] at hp
  | date d m y looped => exact (moveTo?_date.1 h).2
  | monthDay d looped => exact (moveTo?_monthDay.1 h).2
  | weekday n looped => exact onDate_of_toWeekday? h
  | month m looped => exact (moveTo?_month.1 h).2
  | year y => exact (moveTo?_year.1 h).2

/-- Whether an instant lies on a point other than a time of day is a matter of its date. -/
theorem holdsAt_congr (hp : p.isTime = false) (h : t.date = u.date) :
    p.holdsAt t = p.holdsAt u := by
  rw [Bool.eq_iff_iff]
  cases p <;> simp_all [isTime]

/-- Bringing an instant back onto a weekday is a fenced move to it: an instant that lies on the
weekday is not moved. -/
theorem realign?_weekday (t : DateTime) (n : Int) (looped : Bool) :
    (weekday n looped).realign? t = toWeekday? t n true := by
  simp only [realign?]
  split
  · rename_i hon
    exact (toWeekday?_eq_self hon).symm
  · rfl

theorem onDate_of_realign? (h : p.realign? t = some u) : u = t.onDate u.date := by
  cases p with
  | weekday n looped => exact onDate_of_toWeekday? ((realign?_weekday t n looped).symm.trans h)
  | _ => exact Option.some.inj h ▸ rfl

theorem realign?_eq_self (h : p.holdsAt t = true) : p.realign? t = some t := by
  cases p with
  | weekday n looped => exact if_pos (holdsAt_weekday.1 h)
  | _ => rfl

/-- A weekday that the point names exists. The moves onto all other points end on them or fail. -/
def WeekdayExists : Point → Prop
  | weekday n _ => 1 ≤ n ∧ n ≤ 7
  | _ => True

theorem InRange.weekdayExists (h : p.InRange) : p.WeekdayExists := by
  cases p with
  | weekday n looped => exact h
  | _ => trivial

/-- An instant that is moved onto a point lies on it. -/
theorem holdsAt_of_moveTo? (hp : p.WeekdayExists) (h : p.moveTo? t fenced = some u) :
    p.holdsAt u = true := by
  cases p with
  | time clock inverted =>
    simp only [moveTo?, Option.some.injEq] at h
    simp [← h]
  | date d m y looped =>
    obtain ⟨⟨hyear, hmonth, hday⟩, _⟩ := moveTo?_date.1 h
    refine holdsAt_date.2 ⟨?_, hmonth, hday⟩
    rintro n rfl
    exact hyear
  | monthDay d looped => exact holdsAt_monthDay.2 (moveTo?_monthDay.1 h).1.2
  | weekday n looped => exact holdsAt_weekday.2 (weekday_of_toWeekday? hp h)
  | month m looped => exact holdsAt_month.2 (moveTo?_month.1 h).1.2.1
  | year y => exact holdsAt_year.2 (moveTo?_year.1 h).1.1

/-- The first point may stand before the second one in a plan: it is coarser, settles other
units, and is not a year beside a weekday. -/
def Above : Point → Point → Prop
  | year _, month .. | year _, date _ _ none _ | year _, monthDay .. => True
  | month .., monthDay .. | month .., weekday .. => True
  | time .., _ => False
  | _, time .. => True
  | _, _ => False

/-- Moving onto a point leaves the points above it in place, provided that a weekday below a
month is fenced. -/
theorem Above.holdsAt_of_moveTo? (habove : p.Above q) (hq : q.WeekdayExists)
    (hfenced : p.scope.has .month = true → q.kind = .weekday → fenced = true)
    (hp : p.holdsAt t = true) (h : q.moveTo? t fenced = some u) : p.holdsAt u = true := by
  cases q with
  | time clock inverted =>
    simp only [moveTo?, Option.some.injEq] at h
    subst h
    cases p <;> simp_all [Above]
  | date d m y looped =>
    cases p <;> cases y <;> simp only [Above] at habove
    obtain ⟨⟨hyear, -, -⟩, -⟩ := moveTo?_date.1 h
    simp_all
  | monthDay d looped =>
    obtain ⟨⟨hindex, -⟩, -⟩ := moveTo?_monthDay.1 h
    have hyear := congrArg (· / 12) hindex
    have hmonth := congrArg (· % 12 + 1) hindex
    simp only [Date.monthIndex_div, Date.monthIndex_mod] at hyear hmonth
    cases p <;> simp only [Above] at habove <;> simp_all
  | weekday n looped =>
    cases p <;> simp only [Above] at habove
    obtain rfl : fenced = true := hfenced rfl rfl
    obtain ⟨hindex, -, -⟩ := toWeekday?_fenced hq h
    have hmonth := congrArg (· % 12 + 1) hindex
    simp only [Date.monthIndex_mod] at hmonth
    simp_all
  | month m looped =>
    obtain ⟨⟨hyear, -, -⟩, -⟩ := moveTo?_month.1 h
    cases p <;> simp only [Above] at habove
    simp_all
  | year y => cases p <;> simp only [Above] at habove

/-- A time of day is advanced by a day. -/
theorem advance_time_eq_ok_iff {clock : TimeOfDay} {inverted : Bool} :
    (time clock inverted).advance t = .ok u ↔ t.addDays? 1 = some u := by
  simp only [advance]
  cases t.addDays? 1 <;> simp

end Point

/-- A repeating span of one count is advanced by this count. -/
theorem Span.advance_eq_ok_iff {unit : TimeUnit} {count : Int} {t u : DateTime} :
    (counts [(unit, count)] true).advance t = .ok u ↔ t.addSpan? unit count = some u := by
  simp only [advance, addCounts?]
  cases t.addSpan? unit count <;> simp

end TimePhrase
