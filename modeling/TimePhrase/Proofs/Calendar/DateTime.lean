import TimePhrase.Calendar.Span
import TimePhrase.Proofs.Calendar.Date

/-!
# The order of instants

Instants are ordered by their date and, on one date, by the time of day. Moves by days and by
months change the date alone.
-/

namespace TimePhrase.DateTime

variable {t u v : DateTime}

theorem lt_def : t < u ↔ t.toMicros < u.toMicros := Iff.rfl

theorem le_def : t ≤ u ↔ t.toMicros ≤ u.toMicros := Iff.rfl

theorem not_lt : ¬ t < u ↔ u ≤ t := Nat.not_lt

theorem not_le : ¬ t ≤ u ↔ u < t := Nat.not_le

theorem lt_of_lt_of_le (h : t < u) (h' : u ≤ v) : t < v := Nat.lt_of_lt_of_le h h'

theorem lt_of_le_of_lt (h : t ≤ u) (h' : u < v) : t < v := Nat.lt_of_le_of_lt h h'

theorem le_trans (h : t ≤ u) (h' : u ≤ v) : t ≤ v := Nat.le_trans h h'

theorem le_of_lt (h : t < u) : t ≤ u := Nat.le_of_lt h

theorem microsOfDay_lt (t : DateTime) : t.microsOfDay < microsPerDay := by
  have := t.hour.isLt
  have := t.minute.isLt
  have := t.second.isLt
  have := t.micro.isLt
  unfold microsOfDay microsPerDay microsPerHour microsPerMinute
  omega

/-- The later of two instants has the later date, or the later time of the same date. -/
theorem lt_iff : t < u ↔ t.date.toDays < u.date.toDays ∨
    t.date.toDays = u.date.toDays ∧ t.microsOfDay < u.microsOfDay := by
  have ht := t.microsOfDay_lt
  have hu := u.microsOfDay_lt
  unfold microsPerDay microsPerHour microsPerMinute at ht hu
  rw [lt_def]
  unfold toMicros microsPerDay microsPerHour microsPerMinute
  omega

theorem toDays_le_of_le (h : t ≤ u) : t.date.toDays ≤ u.date.toDays := by
  have := mt lt_iff.2 (not_lt.2 h)
  omega

theorem eq_of_toMicros_eq (h : t.toMicros = u.toMicros) : t = u := by
  have htu : ¬ t < u := by rw [lt_def]; omega
  have hut : ¬ u < t := by rw [lt_def]; omega
  rw [lt_iff] at htu hut
  have hdate : t.date = u.date := Date.eq_of_toDays_eq (by omega)
  have hmicros : t.microsOfDay = u.microsOfDay := by omega
  have := t.minute.isLt
  have := t.second.isLt
  have := t.micro.isLt
  have := u.minute.isLt
  have := u.second.isLt
  have := u.micro.isLt
  unfold microsOfDay at hmicros
  cases t
  cases u
  simp_all only [mk.injEq, Fin.ext_iff, true_and]
  omega

theorem lt_or_eq_or_gt (t u : DateTime) : t < u ∨ t = u ∨ u < t := by
  rcases Nat.lt_trichotomy t.toMicros u.toMicros with hlt | heq | hgt
  · exact Or.inl hlt
  · exact Or.inr (Or.inl (eq_of_toMicros_eq heq))
  · exact Or.inr (Or.inr hgt)

theorem le_antisymm (h : t ≤ u) (h' : u ≤ t) : t = u := eq_of_toMicros_eq (Nat.le_antisymm h h')

section Moves

variable (t) (date : Date) (time : TimeOfDay)

@[simp] theorem date_onDate : (t.onDate date).date = date := rfl

@[simp] theorem timeOfDay_onDate : (t.onDate date).timeOfDay = t.timeOfDay := rfl

@[simp] theorem microsOfDay_onDate : (t.onDate date).microsOfDay = t.microsOfDay := rfl

@[simp] theorem onDate_onDate (other : Date) : (t.onDate date).onDate other = t.onDate other := rfl

@[simp] theorem onDate_date : t.onDate t.date = t := rfl

@[simp] theorem date_atTime : (t.atTime time).date = t.date := rfl

@[simp] theorem timeOfDay_atTime : (t.atTime time).timeOfDay = time := rfl

@[simp] theorem atTime_onDate : (t.onDate date).atTime time = (t.atTime time).onDate date := rfl

@[simp] theorem atTime_atTime (other : TimeOfDay) :
    (t.atTime other).atTime time = t.atTime time := rfl

/-- The instant is the given time of day, to the microsecond. -/
def IsAt (t : DateTime) (time : TimeOfDay) : Prop :=
  t.timeOfDay = time ∧ t.second.val = 0 ∧ t.micro.val = 0

theorem isAt_atTime : (t.atTime time).IsAt time := ⟨rfl, rfl, rfl⟩

variable {t time} in
theorem IsAt.atTime_eq (h : t.IsAt time) : t.atTime time = t := by
  obtain ⟨rfl, hsecond, hmicro⟩ := h
  cases t
  simp only [atTime, timeOfDay, mk.injEq, Fin.ext_iff, true_and] at *
  exact ⟨hsecond.symm, hmicro.symm⟩

variable {t date time} in
theorem IsAt.onDate (h : t.IsAt time) : (t.onDate date).IsAt time := h

end Moves

theorem addDays?_eq_some_iff {count : Int} : t.addDays? count = some u ↔
    (u.date.toDays : Int) = t.date.toDays + count ∧ u = t.onDate u.date := by
  simp only [addDays?, Option.map_eq_some_iff, Date.addDays?_eq_some_iff]
  constructor
  · rintro ⟨date, hdate, rfl⟩
    exact ⟨hdate, rfl⟩
  · rintro ⟨hdate, hu⟩
    exact ⟨u.date, hdate, hu.symm⟩

/-- A move by days that stays in the calendar succeeds. -/
theorem addDays?_isSome {t : DateTime} (count : Int) (hlow : 0 ≤ t.date.toDays + count)
    (hhigh : t.date.toDays + count < Date.dayCount) : ∃ u, t.addDays? count = some u := by
  obtain ⟨date, hdate⟩ := Date.addDays?_isSome count hlow hhigh
  exact ⟨t.onDate date, by rw [addDays?, hdate]; rfl⟩

theorem addMonths?_eq_some_iff {count : Int} : t.addMonths? count = some u ↔
    ((u.date.monthIndex : Int) = t.date.monthIndex + count ∧
      u.date.day = min t.date.day (daysInMonth u.date.year u.date.month)) ∧
      u = t.onDate u.date := by
  simp only [addMonths?, Option.map_eq_some_iff, Date.addMonths?_eq_some_iff]
  constructor
  · rintro ⟨date, hdate, rfl⟩
    exact ⟨hdate, rfl⟩
  · rintro ⟨hdate, hu⟩
    exact ⟨u.date, hdate, hu.symm⟩

/-- Instants at the same time of day are ordered by their dates. -/
theorem lt_iff_of_microsOfDay_eq (h : t.microsOfDay = u.microsOfDay) :
    t < u ↔ t.date.toDays < u.date.toDays := by
  rw [lt_iff]
  omega

section Micros

theorem toMicros_onDay (date : Date) {micros : Nat} (h : micros < microsPerDay) :
    (onDay date micros).toMicros = date.toDays * microsPerDay + micros := by
  have hmicros : (onDay date micros).microsOfDay = micros := by
    simp only [onDay, microsOfDay, Fin.val_ofNat]
    unfold microsPerDay at h
    unfold microsPerHour microsPerMinute at *
    omega
  rw [toMicros, hmicros]
  rfl

/-- Reading a count of microseconds finds the instant with that count. -/
theorem ofMicros?_eq_some_iff {micros : Int} : ofMicros? micros = some t ↔
    (t.toMicros : Int) = micros := by
  have htime := t.microsOfDay_lt
  have hday : microsPerDay = 86400000000 := rfl
  rw [ofMicros?, Option.map_eq_some_iff, hday]
  rw [hday] at htime
  constructor
  · rintro ⟨date, hdate, rfl⟩
    have hdays := Date.ofDays?_eq_some_iff.1 hdate
    rw [toMicros_onDay date (by rw [hday]; omega), hday]
    omega
  · intro h
    rw [toMicros, hday] at h
    refine ⟨t.date, Date.ofDays?_eq_some_iff.2 (by omega), eq_of_toMicros_eq ?_⟩
    rw [toMicros_onDay t.date (by rw [hday]; omega), toMicros, hday]
    omega

theorem addMicros?_eq_some_iff {count : Int} :
    t.addMicros? count = some u ↔ (u.toMicros : Int) = t.toMicros + count := ofMicros?_eq_some_iff

/-- A move by days is one by their microseconds. -/
theorem addDays?_eq_addMicros? (t : DateTime) (count : Int) :
    t.addDays? count = t.addMicros? (microsPerDay * count) := by
  have hday : microsPerDay = 86400000000 := rfl
  have ht := t.microsOfDay_lt
  ext u
  have hu := u.microsOfDay_lt
  rw [addDays?_eq_some_iff, addMicros?_eq_some_iff, toMicros, toMicros, hday]
  rw [hday] at ht hu
  constructor
  · rintro ⟨hdays, honDate⟩
    have hmicros : u.microsOfDay = t.microsOfDay := by rw [honDate, microsOfDay_onDate]
    omega
  · intro h
    have hdays : (u.date.toDays : Int) = t.date.toDays + count := by omega
    refine ⟨hdays, eq_of_toMicros_eq ?_⟩
    rw [toMicros, toMicros, date_onDate, microsOfDay_onDate]
    omega

/-- There is an instant between two others for every count of microseconds between theirs. -/
theorem exists_toMicros_eq {micros : Int} (hlow : 0 ≤ micros) (hhigh : micros ≤ u.toMicros) :
    ∃ t : DateTime, (t.toMicros : Int) = micros := by
  have hday : microsPerDay = 86400000000 := rfl
  have hu := u.microsOfDay_lt
  have hlast := u.date.toDays_lt_dayCount
  rw [toMicros, hday] at hhigh
  rw [hday] at hu
  have hlt : (micros / 86400000000).toNat < Date.dayCount := by omega
  obtain ⟨date, hdate, hdays⟩ := Date.ofDays?_of_lt hlt
  refine ⟨onDay date (micros % 86400000000).toNat, ?_⟩
  rw [toMicros_onDay date (by rw [hday]; omega), hday]
  omega

end Micros

end TimePhrase.DateTime
