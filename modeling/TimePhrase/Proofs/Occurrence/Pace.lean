import TimePhrase.Proofs.Occurrence.Sound

/-!
# The pace of repeating spans

A repeating span advances by the whole of its count, but it is tried last. A time of day is
advanced first, by a day, unless a span has settled the day. Beside a time of day alone, a
repeating span of weeks, months or years is therefore never reached. With a weekday as well, the
day after a candidate is brought back onto the weekday within its month. That leads to the
candidate itself and leaves the span to be tried, except where it leads to the week behind.
-/

namespace TimePhrase

/-- A step that leaves an instant in place can be left out of a pass. -/
theorem Plan.settle?_cons_of_moveTo? {plan : Plan} {step : Step} {rest : List Step} {t : DateTime}
    (h : step.moveTo? t = some t) : plan.settle? (step :: rest) t = plan.settle? rest t := by
  simp only [settle?, moveBy, applySteps, h, bind, Option.bind]

/-- A fenced span of a day or more leaves an instant in place. -/
theorem moveTo?_fencedSpan {unit : TimeUnit} {count : Int} {looped : Bool} {t : DateTime}
    (hunit : unit.isDayOrCoarser = true) :
    (⟨.span (.counts [(unit, count)] looped), true⟩ : Step).moveTo? t = some t := by
  simp [Step.moveTo?, Content.moveTo?, Span.moveTo?, Span.addCounts?, hunit]

/-- The day after the date, brought back onto the weekday of the date within its month, lies in
the week behind: it begins a month, or it begins a week that the month has all of. -/
def Date.LeadsToNextWeek (d : Date) : Prop :=
  d.day = monthLength d.monthIndex ∨ d.weekday = 7 ∧ d.day + 7 ≤ monthLength d.monthIndex

instance decidableLeadsToNextWeek (d : Date) : Decidable d.LeadsToNextWeek :=
  inferInstanceAs (Decidable (_ ∨ _))

section DayAfter

variable {t a m : DateTime} {n : Int} {looped : Bool}

/-- The month of the day after a date, and its day in it. -/
theorem monthIndex_dayAfter (ha : t.addDays? 1 = some a) :
    t.date.day = Date.monthLength t.date.monthIndex ∧
        a.date.monthIndex = t.date.monthIndex + 1 ∧ a.date.day = 1 ∨
      t.date.day < Date.monthLength t.date.monthIndex ∧
        a.date.monthIndex = t.date.monthIndex ∧ a.date.day = t.date.day + 1 := by
  have hdays := (DateTime.addDays?_eq_some_iff.1 ha).1
  have hfirst := t.date.monthIndex_bounds.1
  have hlast := t.date.day_le_monthLength
  have hpos := t.date.day_bounds.1
  have hapos := a.date.day_bounds.1
  have ht := t.date.toDays_eq
  have haDays := a.date.toDays_eq
  rcases Nat.lt_or_eq_of_le hlast with hlt | heq
  · have hindex : a.date.monthIndex = t.date.monthIndex :=
      Date.monthIndex_eq_of_bounds hfirst (by omega) (by omega)
    rw [hindex] at haDays
    exact Or.inr ⟨hlt, hindex, by omega⟩
  · have hnext := Date.monthStart_succ hfirst
    have hlength := Date.monthLength_bounds (t.date.monthIndex + 1)
    have hindex : a.date.monthIndex = t.date.monthIndex + 1 :=
      Date.monthIndex_eq_of_bounds (by omega) (by omega) (by omega)
    rw [hindex] at haDays
    exact Or.inl ⟨heq, hindex, by omega⟩

theorem exists_realign?_dayAfter (hn : (t.date.weekday : Int) = n) (ha : t.addDays? 1 = some a)
    (hleads : t.date.LeadsToNextWeek) :
    ∃ m, (Point.weekday n looped).realign? a = some m ∧ t.addDays? 7 = some m := by
  obtain ⟨hdays, honDate⟩ := DateTime.addDays?_eq_some_iff.1 ha
  have hweekday := t.date.toDays_eq_weekIndex
  have haweekday := a.date.toDays_eq_weekIndex
  have hbounds := t.date.weekday_bounds
  have habounds := a.date.weekday_bounds
  have hmonth := monthIndex_dayAfter ha
  have hlength := Date.monthLength_bounds a.date.monthIndex
  have hweek : a.date.day + 6 ≤ Date.monthLength a.date.monthIndex := by
    rcases hmonth with ⟨-, -, hday⟩ | ⟨hlt, hindex, hday⟩
    · omega
    · rcases hleads with hlast | ⟨-, hsunday⟩
      · omega
      · rw [hindex, hday]
        omega
  obtain ⟨date, hdate, hindex⟩ := Date.exists_addDays?_of_day_le 6 hweek
  have hdateDays := Date.addDays?_eq_some_iff.1 hdate
  have hm : t.addDays? 7 = some (t.onDate date) :=
    DateTime.addDays?_eq_some_iff.2 ⟨by rw [DateTime.date_onDate]; omega, rfl⟩
  refine ⟨t.onDate date, ?_, hm⟩
  have hdateOf (other : Date) : t.onDate other = a.onDate other := by
    rw [honDate, DateTime.onDate_onDate]
  rw [Point.realign?_weekday, Point.toWeekday?]
  by_cases hsunday : t.date.weekday = 7
  · have hmoved : a.addDays? (n - a.weekday) = some (t.onDate date) :=
      DateTime.addDays?_eq_some_iff.2
        ⟨by rw [DateTime.date_onDate, DateTime.weekday]; omega, hdateOf date⟩
    simp [hmoved, hindex]
  · have hmoved : a.addDays? (n - a.weekday) = some t :=
      DateTime.addDays?_eq_some_iff.2 ⟨by rw [DateTime.weekday]; omega, hdateOf t.date⟩
    have hbefore : t.date.monthIndex < a.date.monthIndex := by
      rcases hmonth with ⟨-, hnext, -⟩ | ⟨hlt, -, -⟩
      · omega
      · rcases hleads with hlast | ⟨hweekday, -⟩
        · omega
        · exact absurd hweekday hsunday
    simp [hmoved, hbefore, hm]

theorem toDays_of_realign?_dayAfter (hn : (t.date.weekday : Int) = n) (ha : t.addDays? 1 = some a)
    (hm : (Point.weekday n looped).realign? a = some m) :
    (m.date.toDays : Int) = t.date.toDays + if t.date.LeadsToNextWeek then 7 else 0 := by
  obtain ⟨hdays, honDate⟩ := DateTime.addDays?_eq_some_iff.1 ha
  have hweekday := t.date.toDays_eq_weekIndex
  have haweekday := a.date.toDays_eq_weekIndex
  have hbounds := t.date.weekday_bounds
  have habounds := a.date.weekday_bounds
  have hmonth := monthIndex_dayAfter ha
  have hlength := Date.monthLength_bounds a.date.monthIndex
  have hpos := t.date.day_bounds.1
  have haDays := a.date.toDays_eq
  rw [Point.realign?_weekday] at hm
  have hmoved := Point.toDays_of_toWeekday?_fenced rfl hm
  by_cases hleads : t.date.LeadsToNextWeek
  · rw [if_pos hleads]
    rcases hmonth with ⟨hlast, hindex, hday⟩ | ⟨hlt, hindex, hday⟩
    · omega
    · rw [hindex] at hmoved haDays
      unfold Date.LeadsToNextWeek at hleads
      omega
  · rw [if_neg hleads]
    unfold Date.LeadsToNextWeek at hleads
    rcases hmonth with ⟨hlast, hindex, hday⟩ | ⟨hlt, hindex, hday⟩
    · exact absurd (Or.inl hlast) hleads
    · rw [hindex] at hmoved haDays
      omega

end DayAfter

namespace Term

variable {term other : Term} {plan : Plan} {unit : TimeUnit} {count : Int} {weekday : Int}
  {clock defaultTime : TimeOfDay} {looped inverted strict : Bool} {bounds : Bounds}
  {since t u first second : DateTime}

theorem advanceUntil_eq_ok_congr (other : Term) {threshold : Threshold} {rounds : Nat}
    (h : term.advanceUntil plan since threshold rounds t = .ok u) :
    other.advanceUntil plan since threshold rounds t = .ok u := by
  induction rounds using Nat.strongRecOn generalizing t with
  | ind rounds ih =>
    by_cases hadmits : threshold.admits t = true
    · rw [advanceUntil_of_admits rounds hadmits] at h ⊢
      exact h
    · obtain ⟨fewer, moved, rfl, hadvance, h⟩ := exists_advance_of_advanceUntil hadmits h
      rw [advanceUntil, if_neg hadmits, hadvance]
      exact ih fewer (Nat.lt_succ_self fewer) h

/-- The occurrences of a term are those of its plan. -/
theorem next_of_forTerm_eq (hplan : Plan.forTerm term defaultTime = Plan.forTerm other defaultTime)
    (hcontent : other.content ≠ [])
    (h : term.next since strict defaultTime (some bounds) = .ok t) :
    other.next since strict defaultTime (some bounds) = .ok t := by
  obtain ⟨-, limits, hlimits, hsearch⟩ := next_eq_ok_iff.1 h
  rw [hplan] at hsearch
  obtain ⟨candidate, hcandidate, hrun, hupper⟩ := searchBy_eq_ok_iff.1 hsearch
  exact next_eq_ok_iff.2 ⟨hcontent, limits, hlimits,
    searchBy_eq_ok_iff.2 ⟨candidate, hcandidate, advanceUntil_eq_ok_congr other hrun, hupper⟩⟩

/-- A strict search from an instant that its plan leaves in place ends with one advance. -/
theorem advance_of_next (hsettle : (Plan.forTerm term defaultTime).settle?
      (Plan.forTerm term defaultTime).steps t = some t)
    (h : term.next t true defaultTime (some .none) = .ok u) :
    (Plan.forTerm term defaultTime).advance t = .ok (some u) := by
  obtain ⟨-, limits, hlimits, hsearch⟩ := next_eq_ok_iff.1 h
  obtain rfl := Except.ok.inj hlimits
  obtain ⟨candidate, hcandidate, hrun, -⟩ := searchBy_eq_ok_iff.1 hsearch
  obtain rfl : t = candidate := Option.some.inj (hsettle.symm.trans hcandidate)
  have hadmits {m : DateTime} : (Threshold.of t true Bounds.none.lower).admits m = true ↔ t < m :=
    Threshold.admits_iff
  have hself : ¬ (Threshold.of t true Bounds.none.lower).admits t = true := fun hself =>
    Nat.lt_irrefl _ (DateTime.lt_def.1 (hadmits.1 hself))
  obtain ⟨fewer, moved, -, hadvance, hrun⟩ := exists_advance_of_advanceUntil hself hrun
  have hmoved := hadmits.2 (Plan.lt_of_advance hadvance)
  obtain rfl : moved = u := Except.ok.inj ((advanceUntil_of_admits _ hmoved).symm.trans hrun)
  exact hadvance

end Term

section TimeOfDay

variable {plan : Plan} {term : Term} {unit : TimeUnit} {count : Int} {clock defaultTime : TimeOfDay}
  {inverted : Bool} {since t u first second : DateTime}

/-- The plan of a repeating count of one unit, at a time of day. -/
structure Plan.IsSpanAt (plan : Plan) (unit : TimeUnit) (count : Int) (clock : TimeOfDay)
    (inverted : Bool) : Prop where
  steps : plan.steps =
    [⟨.span (.counts [(unit, count)] true), true⟩, ⟨.point (.time clock inverted), false⟩]
  pinned : plan.pinned = .of [unit]
  defaultTime : plan.defaultTime = none

namespace Plan.IsSpanAt

/-- A pass that ends with the time of day stays at an instant at that time of day. -/
theorem settle?_time (h : plan.IsSpanAt unit count clock inverted) (ht : t.IsAt clock) :
    plan.settle? [⟨.point (.time clock inverted), false⟩] t = some t := by
  refine settle?_eq_some_iff.2 ⟨t, congrArg some ht.atTime_eq, ?_⟩
  rw [setDefaultTime, h.defaultTime, realign?, h.steps]
  rfl

/-- The time of day is advanced, by a day, and not the span. -/
theorem addDays?_of_advance (h : plan.IsSpanAt unit count clock inverted) (hunit : unit ≠ .day)
    (ht : t.IsAt clock) (hadvance : plan.advance t = .ok (some u)) : t.addDays? 1 = some u := by
  have hable : plan.canAdvance ⟨.point (.time clock inverted), false⟩ = .ok true := by
    have hpinned : plan.pinned.has .day = false := by
      rw [h.pinned]
      cases unit <;> simp_all [Scope.of]
    simp [canAdvance, Content.cycle?, Point.cycle?, hpinned]
  have hsettle {a : DateTime} (ha : t.addDays? 1 = some a) :
      plan.settle? [⟨.point (.time clock inverted), false⟩] a = some a :=
    h.settle?_time ((DateTime.addDays?_eq_some_iff.1 ha).2 ▸ ht.onDate)
  rw [advance, h.steps] at hadvance
  obtain ⟨-, a, ha, hmoved, -⟩ | ⟨hvain, -⟩ := advanceOne_cons hadvance
  · have ha := Point.advance_time_eq_ok_iff.1 ha
    rw [ha]
    exact (hsettle ha).symm.trans hmoved
  · obtain ⟨⟨a, hmoved⟩, hnot⟩ := hvain hable
    have ha := Point.advance_time_eq_ok_iff.1 hmoved
    obtain ⟨hdays, honDate⟩ := DateTime.addDays?_eq_some_iff.1 ha
    have hlater : t < a := DateTime.lt_iff.2 (Or.inl (by omega))
    have hat : a.IsAt clock := honDate ▸ ht.onDate
    have hholds : plan.holdsAt a = true := by
      rw [holdsAt, h.steps]
      simp [Content.holdsAt, hat.1]
    exact absurd ⟨a, hmoved, hsettle ha, hlater, hholds⟩ (hnot a)

end Plan.IsSpanAt

namespace Term

/-- The term repeats by a count of one unit, at a time of day. -/
def everyAt (unit : TimeUnit) (count : Int) (clock : TimeOfDay) (inverted : Bool) : Term :=
  ⟨[.content (.span (.counts [(unit, count)] true)), .content (.point (.time clock inverted))]⟩

theorem content_everyAt : (everyAt unit count clock inverted).content =
    [.span (.counts [(unit, count)] true), .point (.time clock inverted)] := rfl

theorem isSpanAt_everyAt : (Plan.forTerm (everyAt unit count clock inverted) defaultTime).IsSpanAt
    unit count clock inverted where
  steps := by cases inverted <;> rfl
  pinned := rfl
  defaultTime := defaultTime_forTerm_eq_none (List.mem_cons_of_mem _ (List.mem_cons_self ..))

theorem checkParts_everyAt (hunit : unit ∈ [.week, .month, .year]) :
    checkParts (everyAt unit count clock inverted).parts = .ok () := by
  simp only [List.mem_cons, List.not_mem_nil, or_false] at hunit
  rcases hunit with rfl | rfl | rfl <;> cases inverted <;> rfl

/-- Every count of weeks, months or years at a time of day means every day at that time. -/
theorem addDays?_of_next_everyAt (hcontent : term.content.Perm
      [.span (.counts [(unit, count)] true), .point (.time clock inverted)])
    (hunit : unit ∈ [.week, .month, .year])
    (hfirst : term.next since true defaultTime (some .none) = .ok first)
    (hsecond : term.next first true defaultTime (some .none) = .ok second) :
    first.addDays? 1 = some second := by
  have hplan : Plan.forTerm term defaultTime =
      Plan.forTerm (everyAt unit count clock inverted) defaultTime :=
    Plan.forTerm_eq_of_perm hcontent (Nat.le_refl 1) (List.nodup_singleton 3)
  have hfirst := next_of_forTerm_eq hplan (List.cons_ne_nil _ _) hfirst
  have hsecond := next_of_forTerm_eq hplan (List.cons_ne_nil _ _) hsecond
  have hrange : (everyAt unit count clock inverted).PointsInRange := by
    intro p hp
    obtain rfl : p = .time clock inverted := by simpa [content_everyAt] using hp
    trivial
  obtain ⟨-, limits, -, hsearch⟩ := next_eq_ok_iff.1 hfirst
  have hfits := (fitsAt_of_searchBy (checkParts_eq_ok_iff.1 (checkParts_everyAt hunit)) hrange
    hsearch).1
  have hat : first.IsAt clock := hfits.named clock inverted (by simp [content_everyAt])
  have hisSpanAt : (Plan.forTerm (everyAt unit count clock inverted) defaultTime).IsSpanAt
      unit count clock inverted := isSpanAt_everyAt
  have hcoarse : unit.isDayOrCoarser = true ∧ unit ≠ .day := by
    simp only [List.mem_cons, List.not_mem_nil, or_false] at hunit
    rcases hunit with rfl | rfl | rfl <;> exact ⟨rfl, by decide⟩
  have hsettle : (Plan.forTerm (everyAt unit count clock inverted) defaultTime).settle?
      (Plan.forTerm (everyAt unit count clock inverted) defaultTime).steps first = some first := by
    rw [hisSpanAt.steps, Plan.settle?_cons_of_moveTo? (moveTo?_fencedSpan hcoarse.1)]
    exact hisSpanAt.settle?_time hat
  exact hisSpanAt.addDays?_of_advance hcoarse.2 hat (advance_of_next hsettle hsecond)

/-- Every two weeks at nine, the occurrence after that of a Monday is that of the Tuesday. -/
theorem addDays?_of_next_everyTwoWeeks :
    let first : DateTime := ⟨⟨2024, 1, 1, by decide⟩, 9, 0, 0, 0⟩
    let second : DateTime := ⟨⟨2024, 1, 2, by decide⟩, 9, 0, 0, 0⟩
    first.addDays? 1 = some second := by
  intro first second
  have hfirst : (everyAt .week 2 ⟨9, 0⟩ false).next ⟨⟨2024, 1, 1, by decide⟩, 0, 0, 0, 0⟩ true
      .midnight (some .none) = .ok first := by decide +kernel
  have hsecond : (everyAt .week 2 ⟨9, 0⟩ false).next first true .midnight (some .none) =
      .ok second := by decide +kernel
  exact addDays?_of_next_everyAt (.refl _) (by decide) hfirst hsecond

/-- A count of weeks, months or years at a time of day is not the period of the occurrences. -/
theorem not_forall_addSpan?_of_next_everyAt : ¬ ∀ (unit : TimeUnit) (count : Int)
    (clock : TimeOfDay) (inverted : Bool) (term : Term) (since first second : DateTime),
    unit ∈ [.week, .month, .year] → 1 ≤ count →
    term.content.Perm [.span (.counts [(unit, count)] true), .point (.time clock inverted)] →
    term.next since true .midnight (some .none) = .ok first →
    term.next first true .midnight (some .none) = .ok second →
    first.addSpan? unit count = some second := by
  intro h
  have hspan := h .week 2 ⟨9, 0⟩ false (everyAt .week 2 ⟨9, 0⟩ false)
    ⟨⟨2024, 1, 1, by decide⟩, 0, 0, 0, 0⟩ ⟨⟨2024, 1, 1, by decide⟩, 9, 0, 0, 0⟩
    ⟨⟨2024, 1, 2, by decide⟩, 9, 0, 0, 0⟩ (by decide) (by decide) (.refl _) (by decide +kernel)
    (by decide +kernel)
  exact absurd hspan (by decide +kernel)

end Term

end TimeOfDay

section Weekday

variable {plan : Plan} {term : Term} {count weekday : Int} {clock defaultTime : TimeOfDay}
  {looped inverted : Bool} {since t u first second : DateTime}

/-- The plan of a repeating count of weeks, on a weekday and at a time of day. -/
structure Plan.IsWeeksOn (plan : Plan) (count weekday : Int) (looped : Bool) (clock : TimeOfDay)
    (inverted : Bool) : Prop where
  steps : plan.steps =
    [⟨.span (.counts [(.week, count)] true), true⟩, ⟨.point (.weekday weekday looped), false⟩,
      ⟨.point (.time clock inverted), false⟩]
  pinned : plan.pinned = .of [.week]
  defaultTime : plan.defaultTime = none

namespace Plan.IsWeeksOn

/-- A pass that ends with the time of day brings an instant at that time back onto the weekday. -/
theorem settle?_time (h : plan.IsWeeksOn count weekday looped clock inverted) (ht : t.IsAt clock) :
    plan.settle? [⟨.point (.time clock inverted), false⟩] t =
      (Point.weekday weekday looped).realign? t := by
  have hat : applySteps [⟨.point (.time clock inverted), false⟩] t = some t :=
    congrArg some ht.atTime_eq
  have hset : plan.setDefaultTime t = t := by rw [setDefaultTime, h.defaultTime]
  simp only [settle?, moveBy, hat, Option.map_some, hset, bind, Option.bind, realign?, h.steps]
  simp [Content.realign?, Point.realign?]

/-- An instant on the weekday and at the time of day stays in place. -/
theorem settle?_weekday (h : plan.IsWeeksOn count weekday looped clock inverted)
    (ht : t.IsAt clock) (hweekday : (t.date.weekday : Int) = weekday) :
    plan.settle? [⟨.point (.weekday weekday looped), false⟩, ⟨.point (.time clock inverted), false⟩]
      t = some t := by
  have hmove : (⟨.point (.weekday weekday looped), false⟩ : Step).moveTo? t = some t :=
    Point.toWeekday?_eq_self hweekday
  rw [settle?_cons_of_moveTo? hmove, h.settle?_time ht]
  exact Point.realign?_eq_self (Point.holdsAt_weekday.2 hweekday)

theorem holdsAt_iff (h : plan.IsWeeksOn count weekday looped clock inverted) :
    plan.holdsAt t = true ↔ (t.date.weekday : Int) = weekday ∧ t.timeOfDay = clock := by
  rw [holdsAt, h.steps]
  simp [Content.holdsAt]

/-- Where the day after a candidate leads to the week behind, the attempt at the time of day is
not made in vain. -/
theorem not_leadsToNextWeek (h : plan.IsWeeksOn count weekday looped clock inverted)
    (ht : t.IsAt clock) (hweekday : (t.date.weekday : Int) = weekday)
    (hvain : plan.InVain t ⟨.point (.time clock inverted), false⟩ []) :
    ¬ t.date.LeadsToNextWeek := by
  intro hleads
  have hable : plan.canAdvance ⟨.point (.time clock inverted), false⟩ = .ok true := by
    simp [canAdvance, Content.cycle?, Point.cycle?, h.pinned, Scope.of]
  obtain ⟨⟨a, hadvance⟩, hnot⟩ := hvain hable
  have ha := Point.advance_time_eq_ok_iff.1 hadvance
  obtain ⟨m, hrealign, hm⟩ : ∃ m, (Point.weekday weekday looped).realign? a = some m ∧
      t.addDays? 7 = some m := exists_realign?_dayAfter hweekday ha hleads
  have hat : a.IsAt clock := (DateTime.addDays?_eq_some_iff.1 ha).2 ▸ ht.onDate
  obtain ⟨hdays, honDate⟩ := DateTime.addDays?_eq_some_iff.1 hm
  have hlater : t < m := DateTime.lt_iff.2 (Or.inl (by omega))
  have hmAt : m.IsAt clock := honDate ▸ ht.onDate
  have hmWeekday : (m.date.weekday : Int) = weekday := by
    rw [← hweekday]
    unfold Date.weekday
    omega
  exact hnot m ⟨a, hadvance, (h.settle?_time hat).trans hrealign, hlater,
    h.holdsAt_iff.2 ⟨hmWeekday, hmAt.1⟩⟩

/-- An advance leads a week further where the day after does, and otherwise by the whole span. -/
theorem addDays?_of_advance (h : plan.IsWeeksOn count weekday looped clock inverted)
    (ht : t.IsAt clock) (hweekday : (t.date.weekday : Int) = weekday)
    (hadvance : plan.advance t = .ok (some u)) :
    t.addDays? (if t.date.LeadsToNextWeek then 7 else 7 * count) = some u := by
  have hunable : plan.canAdvance ⟨.point (.weekday weekday looped), false⟩ = .ok false := by
    simp [canAdvance, Content.cycle?, Point.cycle?, h.pinned, Scope.of]
  rw [advance, h.steps] at hadvance
  obtain ⟨-, a, ha, hmoved, hlater, -⟩ | ⟨hvain, hrest⟩ := advanceOne_cons hadvance
  · have ha := Point.advance_time_eq_ok_iff.1 ha
    have honDate := (DateTime.addDays?_eq_some_iff.1 ha).2
    have hat : a.IsAt clock := honDate ▸ ht.onDate
    have hrealign := (h.settle?_time hat).symm.trans hmoved
    have hdays := toDays_of_realign?_dayAfter hweekday ha hrealign
    have huOnDate : u = t.onDate u.date := by
      rw [Point.onDate_of_realign? hrealign, honDate]
      rfl
    -- An instant later at the same time of day has a later date.
    have hlt : t.date.toDays < u.date.toDays := by
      refine (DateTime.lt_iff_of_microsOfDay_eq ?_).1 hlater
      rw [huOnDate, DateTime.microsOfDay_onDate]
    have hleads : t.date.LeadsToNextWeek := by
      refine Classical.byContradiction fun hnot => ?_
      rw [if_neg hnot] at hdays
      omega
    rw [if_pos hleads] at hdays ⊢
    exact DateTime.addDays?_eq_some_iff.2 ⟨hdays, huOnDate⟩
  obtain ⟨hable, -⟩ | ⟨-, hrest⟩ := advanceOne_cons hrest
  · cases hunable.symm.trans hable
  obtain ⟨-, a, ha, hmoved, -⟩ | ⟨-, hrest⟩ := advanceOne_cons hrest
  · have ha : t.addDays? (7 * count) = some a := Span.advance_eq_ok_iff.1 ha
    obtain ⟨hdays, honDate⟩ := DateTime.addDays?_eq_some_iff.1 ha
    have haWeekday : (a.date.weekday : Int) = weekday := by
      rw [← hweekday]
      unfold Date.weekday
      omega
    rw [if_neg (h.not_leadsToNextWeek ht hweekday hvain), ha]
    exact (h.settle?_weekday (honDate ▸ ht.onDate) haWeekday).symm.trans hmoved
  · cases hrest

end Plan.IsWeeksOn

namespace Term

/-- The term repeats by a count of weeks, on a weekday and at a time of day. -/
def everyWeeksOn (count weekday : Int) (looped : Bool) (clock : TimeOfDay) (inverted : Bool) :
    Term :=
  ⟨[.content (.span (.counts [(.week, count)] true)), .content (.point (.weekday weekday looped)),
    .content (.point (.time clock inverted))]⟩

theorem content_everyWeeksOn : (everyWeeksOn count weekday looped clock inverted).content =
    [.span (.counts [(.week, count)] true), .point (.weekday weekday looped),
      .point (.time clock inverted)] := rfl

theorem isWeeksOn_everyWeeksOn :
    (Plan.forTerm (everyWeeksOn count weekday looped clock inverted) defaultTime).IsWeeksOn
      count weekday looped clock inverted where
  steps := by cases inverted <;> rfl
  pinned := rfl
  defaultTime := defaultTime_forTerm_eq_none
    (List.mem_cons_of_mem _ (List.mem_cons_of_mem _ (List.mem_cons_self ..)))

theorem checkParts_everyWeeksOn :
    checkParts (everyWeeksOn count weekday looped clock inverted).parts = .ok () := by
  cases inverted <;> cases looped <;> rfl

/-- A count of weeks on a weekday at a time of day is kept to, except that an occurrence on the
last day of a month, or on a Sunday that another one follows in its month, is followed by the one
a week later. -/
theorem addDays?_of_next_everyWeeksOn (hcontent : term.content.Perm
      [.span (.counts [(.week, count)] true), .point (.weekday weekday looped),
        .point (.time clock inverted)])
    (hweekday : 1 ≤ weekday ∧ weekday ≤ 7)
    (hfirst : term.next since true defaultTime (some .none) = .ok first)
    (hsecond : term.next first true defaultTime (some .none) = .ok second) :
    first.addDays? (if first.date.LeadsToNextWeek then 7 else 7 * count) = some second := by
  have hplan : Plan.forTerm term defaultTime =
      Plan.forTerm (everyWeeksOn count weekday looped clock inverted) defaultTime :=
    Plan.forTerm_eq_of_perm hcontent (Nat.le_refl 1) (show [2, 3].Nodup by decide)
  have hfirst := next_of_forTerm_eq hplan (List.cons_ne_nil _ _) hfirst
  have hsecond := next_of_forTerm_eq hplan (List.cons_ne_nil _ _) hsecond
  have hrange : (everyWeeksOn count weekday looped clock inverted).PointsInRange := by
    intro p hp
    simp only [content_everyWeeksOn, List.mem_cons, Content.point.injEq, List.not_mem_nil,
      or_false, reduceCtorEq, false_or] at hp
    rcases hp with rfl | rfl
    · exact hweekday
    · trivial
  obtain ⟨-, limits, -, hsearch⟩ := next_eq_ok_iff.1 hfirst
  have hfits := (fitsAt_of_searchBy (checkParts_eq_ok_iff.1 checkParts_everyWeeksOn) hrange
    hsearch).1
  have hat : first.IsAt clock := hfits.named clock inverted (by simp [content_everyWeeksOn])
  have hon : (first.date.weekday : Int) = weekday :=
    Point.holdsAt_weekday.1
      (hfits.points (.weekday weekday looped) (by simp [content_everyWeeksOn]))
  have h : (Plan.forTerm (everyWeeksOn count weekday looped clock inverted) defaultTime).IsWeeksOn
      count weekday looped clock inverted := isWeeksOn_everyWeeksOn
  have hsettle : (Plan.forTerm (everyWeeksOn count weekday looped clock inverted)
      defaultTime).settle? (Plan.forTerm (everyWeeksOn count weekday looped clock inverted)
        defaultTime).steps first = some first := by
    rw [h.steps, Plan.settle?_cons_of_moveTo? (moveTo?_fencedSpan rfl)]
    exact h.settle?_weekday hat hon
  exact h.addDays?_of_advance hat hon (advance_of_next hsettle hsecond)

/-- Every two weeks on Sunday at nine, the first Sunday of 2024 is followed by the second one. -/
theorem addDays?_of_next_everyTwoSundays :
    let first : DateTime := ⟨⟨2024, 1, 7, by decide⟩, 9, 0, 0, 0⟩
    let second : DateTime := ⟨⟨2024, 1, 14, by decide⟩, 9, 0, 0, 0⟩
    first.addDays? (if first.date.LeadsToNextWeek then 7 else 7 * 2) = some second := by
  intro first second
  have hfirst : (everyWeeksOn 2 7 false ⟨9, 0⟩ false).next ⟨⟨2024, 1, 1, by decide⟩, 0, 0, 0, 0⟩
      true .midnight (some .none) = .ok first := by decide +kernel
  have hsecond : (everyWeeksOn 2 7 false ⟨9, 0⟩ false).next first true .midnight (some .none) =
      .ok second := by decide +kernel
  exact addDays?_of_next_everyWeeksOn (.refl _) (by decide) hfirst hsecond

/-- A count of weeks on a weekday at a time of day is not the distance of all occurrences. -/
theorem not_forall_addDays?_of_next_everyWeeksOn : ¬ ∀ (count weekday : Int) (looped : Bool)
    (clock : TimeOfDay) (inverted : Bool) (term : Term) (since first second : DateTime),
    1 ≤ count → 1 ≤ weekday ∧ weekday ≤ 7 →
    term.content.Perm [.span (.counts [(.week, count)] true), .point (.weekday weekday looped),
      .point (.time clock inverted)] →
    term.next since true .midnight (some .none) = .ok first →
    term.next first true .midnight (some .none) = .ok second →
    first.addDays? (7 * count) = some second := by
  intro h
  have hweeks := h 2 7 false ⟨9, 0⟩ false (everyWeeksOn 2 7 false ⟨9, 0⟩ false)
    ⟨⟨2024, 1, 1, by decide⟩, 0, 0, 0, 0⟩ ⟨⟨2024, 1, 7, by decide⟩, 9, 0, 0, 0⟩
    ⟨⟨2024, 1, 14, by decide⟩, 9, 0, 0, 0⟩ (by decide) (by decide) (.refl _) (by decide +kernel)
    (by decide +kernel)
  exact absurd hweeks (by decide +kernel)

end Term

end Weekday

end TimePhrase
