import TimePhrase.Proofs.Occurrence.Points
import TimePhrase.Proofs.Occurrence.Repeat

/-!
# Every day in a month

A repeating span of one day beside a month is tried after the month, and the month leads a year
further, to its first day. The occurrences of "every day in March" are therefore the first days of
March, one in each year, and not all of its days.
-/

namespace TimePhrase

open Plan

/-- The least instant behind `since` with the property. -/
def IsLeastAfter (P : DateTime → Prop) (since t : DateTime) : Prop :=
  P t ∧ since < t ∧ ∀ u, P u → since < u → t ≤ u

/-- The instant lies in the month, at the time of day. -/
def IsInMonth (month : Int) (clock : TimeOfDay) (t : DateTime) : Prop :=
  (t.date.month : Int) = month ∧ t.IsAt clock

/-- The instant lies on the first day of the month, at the time of day. -/
def IsFirstOf (month : Int) (clock : TimeOfDay) (t : DateTime) : Prop :=
  ((t.date.month : Int) = month ∧ t.date.day = 1) ∧ t.IsAt clock

namespace IsFirstOf

variable {month : Int} {clock : TimeOfDay} {t u : DateTime}

theorem toDays_lt_iff (ht : IsFirstOf month clock t) (hu : IsFirstOf month clock u) :
    t.date.toDays < u.date.toDays ↔ t.date.year < u.date.year := by
  obtain ⟨⟨htMonth, htDay⟩, -⟩ := ht
  obtain ⟨⟨huMonth, huDay⟩, -⟩ := hu
  constructor
  · intro hlt
    rcases Nat.lt_or_eq_of_le (Date.year_le_of_toDays_le (Nat.le_of_lt hlt)) with hyear | hyear
    · exact hyear
    · have hindex := Date.monthIndex_eq_iff.2 ⟨hyear, Int.ofNat.inj (htMonth.trans huMonth.symm)⟩
      rw [Date.ext_of_monthIndex hindex (htDay.trans huDay.symm)] at hlt
      exact absurd hlt (Nat.lt_irrefl _)
  · exact Date.toDays_lt_of_year_lt

/-- The first days of a month, at one time of day, are in the order of their years. -/
theorem lt_iff (ht : IsFirstOf month clock t) (hu : IsFirstOf month clock u) :
    t < u ↔ t.date.year < u.date.year :=
  (DateTime.IsAt.lt_iff ht.2 hu.2).trans (ht.toDays_lt_iff hu)

theorem le_iff (ht : IsFirstOf month clock t) (hu : IsFirstOf month clock u) :
    t ≤ u ↔ t.date.year ≤ u.date.year := by
  rw [← DateTime.not_lt, hu.lt_iff ht, Nat.not_lt]

/-- A month has a first day in every year of the calendar. -/
theorem exists_of_year {year : Nat} (hmonth : 1 ≤ month ∧ month ≤ 12) (hyear : 1 ≤ year ∧ year ≤ 9999)
    (clock : TimeOfDay) : ∃ t, IsFirstOf month clock t ∧ t.date.year = year := by
  obtain ⟨n, rfl⟩ := Int.eq_ofNat_of_zero_le (Int.le_trans (by decide) hmonth.1)
  have hn : 1 ≤ n ∧ n ≤ 12 := ⟨Int.ofNat_le.1 hmonth.1, Int.ofNat_le.1 hmonth.2⟩
  have hlength := daysInMonth_bounds year hn
  have hdate : IsDate year n 1 := ⟨hyear.1, hyear.2, hn.1, hn.2, Nat.le_refl 1, by omega⟩
  exact ⟨⟨⟨year, n, 1, hdate⟩, clock.hour, clock.minute, 0, 0⟩, ⟨⟨rfl, rfl⟩, rfl, rfl, rfl⟩, rfl⟩

end IsFirstOf

namespace Plan

variable {plan : Plan} {month : Int} {looped : Bool} {below : List Step} {clock : TimeOfDay}
  {t u c : DateTime}

/-- The plan of a repeating day in a month. The time of day is named, or else the default one. -/
structure IsEveryDayIn (plan : Plan) (month : Int) (looped : Bool) (below : List Step)
    (clock : TimeOfDay) : Prop where
  steps : plan.steps = ⟨.span (.counts [(.day, 1)] true), true⟩ ::
    ⟨.point (.month month looped), false⟩ :: below
  pinned : plan.pinned = .of [.day]
  clock : below = [] ∧ plan.defaultTime = some clock ∨
    (∃ inverted, below = [⟨.point (.time clock inverted), false⟩]) ∧ plan.defaultTime = none

namespace IsEveryDayIn

/-- A pass leads to the first day of the month in the year of an instant. -/
theorem settle?_eq (h : plan.IsEveryDayIn month looped below clock) :
    plan.settle? (⟨.point (.month month looped), false⟩ :: below) t =
      ((Point.month month looped).moveTo? t false).map (·.atTime clock) := by
  have hpass : applySteps (⟨.point (.month month looped), false⟩ :: below) t =
      ((Point.month month looped).moveTo? t false).bind (applySteps below) := rfl
  have hrealign (t : DateTime) : plan.realign? t = some t := by
    rw [realign?, h.steps]
    rcases h.clock with ⟨rfl, -⟩ | ⟨⟨inverted, rfl⟩, -⟩ <;> rfl
  rw [settle?, moveBy, hpass]
  cases (Point.month month looped).moveTo? t false with
  | none => rfl
  | some moved =>
    rcases h.clock with ⟨rfl, hdefault⟩ | ⟨⟨inverted, rfl⟩, hdefault⟩
    · simp [applySteps, setDefaultTime, hdefault, hrealign]
    · simp [applySteps, Step.moveTo?, Content.moveTo?, Point.moveTo?, setDefaultTime, hdefault,
        hrealign]

theorem settle?_eq_some_iff (h : plan.IsEveryDayIn month looped below clock) :
    plan.settle? (⟨.point (.month month looped), false⟩ :: below) t = some u ↔
      IsFirstOf month clock u ∧ u.date.year = t.date.year := by
  rw [h.settle?_eq, Option.map_eq_some_iff]
  constructor
  · rintro ⟨moved, hmoved, rfl⟩
    obtain ⟨⟨hyear, hdate⟩, -⟩ := Point.moveTo?_month.1 hmoved
    exact ⟨⟨hdate, moved.isAt_atTime clock⟩, hyear⟩
  · rintro ⟨⟨hdate, hclock⟩, hyear⟩
    exact ⟨t.onDate u.date, Point.moveTo?_month.2 ⟨⟨hyear, hdate⟩, rfl⟩, hclock.atTime_eq⟩

theorem settle?_steps (h : plan.IsEveryDayIn month looped below clock) :
    plan.settle? plan.steps t =
      plan.settle? (⟨.point (.month month looped), false⟩ :: below) t := by
  rw [h.steps]
  exact settle?_cons_of_moveTo? (moveTo?_fencedSpan rfl)

theorem holdsAt_of_isFirstOf (h : plan.IsEveryDayIn month looped below clock)
    (ht : IsFirstOf month clock t) : plan.holdsAt t = true := by
  obtain ⟨⟨hmonth, -⟩, hclock, -⟩ := ht
  rw [holdsAt, h.steps]
  rcases h.clock with ⟨rfl, -⟩ | ⟨⟨inverted, rfl⟩, -⟩ <;> simp [Content.holdsAt, hmonth, hclock]

/-- The time of day may not be advanced, so the month is, and the span is never reached. -/
theorem advance_eq (h : plan.IsEveryDayIn month looped below clock)
    (hc : IsFirstOf month clock c) :
    ∃ next, plan.advance c = .ok next ∧
      ∀ u, next = some u ↔ IsFirstOf month clock u ∧ u.date.year = c.date.year + 1 := by
  have hable : plan.canAdvance ⟨.point (.month month looped), false⟩ = .ok true := by
    simp [canAdvance, Content.cycle?, Point.cycle?, h.pinned, Scope.of]
  have hbelow : plan.advance c = plan.advanceOne c [⟨.point (.month month looped), false⟩,
      ⟨.span (.counts [(.day, 1)] true), true⟩] below := by
    rw [advance, h.steps]
    rcases h.clock with ⟨rfl, -⟩ | ⟨⟨inverted, rfl⟩, -⟩
    · rfl
    · exact advanceOne_of_unable (by
        simp [canAdvance, Content.cycle?, Point.cycle?, h.pinned, Scope.of])
  have hnext {a : DateTime} : (Point.month month looped).inNextCycle? c = some a ↔
      IsFirstOf month clock a ∧ a.date.year = c.date.year + 1 := by
    have hself : (Point.month month looped).moveTo? c false = some c :=
      Point.moveTo?_month.2 ⟨⟨rfl, hc.1⟩, rfl⟩
    have hspan : ((c.addSpan? .year 1).bind fun t => (Point.month month looped).moveTo? t false) =
        some a ↔ _ := Point.addSpan?_moveTo?_eq_some_iff rfl trivial hself
    refine hspan.trans ?_
    constructor
    · rintro ⟨honDate, hyear, hdate⟩
      refine ⟨⟨hdate, honDate ▸ hc.2.onDate⟩, Int.ofNat.inj hyear⟩
    · rintro ⟨⟨hdate, hclock⟩, hyear⟩
      refine ⟨?_, congrArg Int.ofNat hyear, hdate⟩
      rw [← hclock.atTime_eq, ← hc.2.atTime_eq]
      rfl
  have hadvance : (Step.content ⟨.point (.month month looped), false⟩).advance c = _ :=
    Point.advance_eq (p := .month month looped) rfl
  refine ⟨(Point.month month looped).inNextCycle? c, ?_, fun u => hnext⟩
  rw [hbelow]
  cases ha : (Point.month month looped).inNextCycle? c with
  | none =>
    rw [ha] at hadvance
    exact advanceOne_of_outOfRange hable hadvance
  | some a =>
    rw [ha] at hadvance
    obtain ⟨hfirst, hyear⟩ := hnext.1 ha
    exact advanceOne_of_accepts hable ⟨a, hadvance, h.settle?_eq_some_iff.2 ⟨hfirst, rfl⟩,
      (hc.lt_iff hfirst).2 (by omega), h.holdsAt_of_isFirstOf hfirst⟩

end IsEveryDayIn

end Plan

namespace Term

variable {term : Term} {month : Int} {looped : Bool} {time : Option (TimeOfDay × Bool)}
  {defaultTime : TimeOfDay}

/-- The content of an expression for every day in a month, with a time of day if there is one. -/
def everyDayIn (month : Int) (looped : Bool) (time : Option (TimeOfDay × Bool)) : List Content :=
  .span (.counts [(.day, 1)] true) :: .point (.month month looped) ::
    (time.map fun named => .point (.time named.1 named.2)).toList

/-- The time of day that is named, or else the default one. -/
def clockOr (time : Option (TimeOfDay × Bool)) (defaultTime : TimeOfDay) : TimeOfDay :=
  (time.map Prod.fst).getD defaultTime

theorem exists_isEveryDayIn (hcontent : term.content.Perm (everyDayIn month looped time))
    (defaultTime : TimeOfDay) : ∃ below, (forTerm term defaultTime).IsEveryDayIn month looped below
      (clockOr time defaultTime) := by
  have hother := contents_map_content (everyDayIn month looped time)
  have hplan : forTerm term defaultTime =
      forTerm ⟨(everyDayIn month looped time).map .content⟩ defaultTime := by
    refine forTerm_eq_of_perm (hcontent.trans (.of_eq hother.symm)) ?_ ?_
    · rw [spans, content, hother]
      cases time <;> exact Nat.le_refl 1
    · rw [points, content, hother]
      cases time with
      | none => exact List.nodup_singleton 1
      | some named =>
        obtain ⟨clock, inverted⟩ := named
        exact show [1, 3].Nodup by decide
  rw [hplan]
  cases time with
  | none => exact ⟨[], rfl, rfl, Or.inl ⟨rfl, rfl⟩⟩
  | some named =>
    obtain ⟨clock, inverted⟩ := named
    cases inverted <;> exact ⟨_, rfl, rfl, Or.inr ⟨⟨_, rfl⟩, rfl⟩⟩

/-- A search for every day in a month returns the next first day of that month. It fails only when
none is left in the calendar. -/
theorem next_everyDayIn (hcontent : term.content.Perm (everyDayIn month looped time))
    (hmonth : 1 ≤ month ∧ month ≤ 12)
    (hlimits : ∀ part ∈ term.parts, part.isLimiter = true → part.InRange) (since : DateTime)
    (defaultTime : TimeOfDay) :
    (∃ r, term.next since true defaultTime (some .none) = .ok r ∧
      IsLeastAfter (IsFirstOf month (clockOr time defaultTime)) since r) ∨
    (∀ u, IsFirstOf month (clockOr time defaultTime) u → ¬ since < u) ∧
      ∃ error, term.next since true defaultTime (some .none) = .error (.expression error) ∧
        error.kind = .noFutureOccurrence := by
  obtain ⟨below, h⟩ := exists_isEveryDayIn hcontent defaultTime
  have hne : term.content ≠ [] := fun hnil => List.cons_ne_nil _ _ (hnil ▸ hcontent).symm.eq_nil
  obtain ⟨text, htext⟩ : ∃ text, term.describe = .ok text := by
    refine exists_describe_of_content (fun c hc => ?_) hlimits
    have hmem := hcontent.mem_iff.1 hc
    simp only [everyDayIn, List.mem_cons, Option.mem_toList, Option.map_eq_some_iff] at hmem
    obtain rfl | rfl | ⟨named, -, rfl⟩ := hmem
    · exact ⟨_, rfl⟩
    · exact Content.exists_describe (c := .point (.month month looped)) hmonth
    · exact Content.exists_describe (c := .point (.time named.1 named.2)) trivial
  -- The first candidate is the first day of the month in the year of `since`.
  obtain ⟨first, hfirst⟩ : ∃ first,
      (forTerm term defaultTime).settle? (forTerm term defaultTime).steps since = some first := by
    obtain ⟨first, hfirst⟩ := IsFirstOf.exists_of_year hmonth since.date.year_bounds
      (clockOr time defaultTime)
    exact ⟨first, h.settle?_steps.trans (h.settle?_eq_some_iff.2 hfirst)⟩
  obtain ⟨hon, hyear⟩ := h.settle?_eq_some_iff.1 (h.settle?_steps.symm.trans hfirst)
  rw [next_of_settle? hne hfirst]
  by_cases hlater : since < first
  · refine Or.inl ⟨first, advanceUntil_of_admits _ (admits_strict.2 hlater), hon, hlater, ?_⟩
    intro u hu hsince
    rw [hon.le_iff hu, hyear]
    exact Date.year_le_of_toDays_le (DateTime.toDays_le_of_le (DateTime.le_of_lt hsince))
  · have hearly : ¬ (⟨since, true⟩ : Threshold).admits first = true := mt admits_strict.1 hlater
    have hbehind {u : DateTime} (hu : IsFirstOf month (clockOr time defaultTime) u)
        (hsince : since < u) : first.date.year + 1 ≤ u.date.year :=
      (hon.lt_iff hu).1 (DateTime.lt_of_le_of_lt (DateTime.not_lt.1 hlater) hsince)
    obtain ⟨next, hadvance, hnext⟩ := h.advance_eq hon
    cases next with
    | some r =>
      obtain ⟨hr, hryear⟩ := (hnext r).1 rfl
      have hsince : since < r :=
        DateTime.lt_iff.2 (Or.inl (Date.toDays_lt_of_year_lt (by omega)))
      refine Or.inl ⟨r, ?_, hr, hsince, fun u hu hbetween => ?_⟩
      · exact (advanceUntil_of_advance hearly hadvance).trans
          (advanceUntil_of_admits _ (admits_strict.2 hsince))
      · rw [hr.le_iff hu, hryear]
        exact hbehind hu hbetween
    | none =>
      refine Or.inr ⟨fun u hu hsince => ?_, _, advanceUntil_of_exhausted htext hearly hadvance, rfl⟩
      have hyears := u.date.year_bounds
      have hleft := hbehind hu hsince
      have hcalendar : 1 ≤ first.date.year + 1 ∧ first.date.year + 1 ≤ 9999 := by omega
      obtain ⟨r, hr⟩ := IsFirstOf.exists_of_year hmonth hcalendar (clockOr time defaultTime)
      cases (hnext r).2 hr

/-- On 5 March 2024, "every day in March at 9:00" is the first of March 2025. -/
theorem next_everyDayIn_march :
    let since : DateTime := ⟨⟨2024, 3, 5, by decide⟩, 0, 0, 0, 0⟩
    let found : DateTime := ⟨⟨2025, 3, 1, by decide⟩, 9, 0, 0, 0⟩
    let term : Term := ⟨(everyDayIn 3 false (some (⟨9, 0⟩, false))).map .content⟩
    term.next since true .midnight (some .none) = .ok found ∧
      IsLeastAfter (IsFirstOf 3 ⟨9, 0⟩) since found := by
  intro since found term
  have hfound : term.next since true .midnight (some .none) = .ok found := by decide +kernel
  have hlimits : ∀ part ∈ term.parts, part.isLimiter = true → part.InRange := by
    intro part hpart hlimiter
    cases (isLimiter_of_mem_map_content hpart).symm.trans hlimiter
  have hcontent : term.content.Perm (everyDayIn 3 false (some (⟨9, 0⟩, false))) :=
    .of_eq (contents_map_content _)
  rcases next_everyDayIn hcontent (by decide) hlimits since .midnight with
    ⟨r, hr, hleast⟩ | ⟨-, error, hfailed, -⟩
  · obtain rfl := Except.ok.inj (hr.symm.trans hfound)
    exact ⟨hfound, hleast⟩
  · cases hfailed.symm.trans hfound

/-- A search for every day in a month does not find every day in it. -/
theorem not_forall_next_everyDayIn : ¬ ∀ (month : Int) (looped : Bool)
    (time : Option (TimeOfDay × Bool)) (term : Term) (defaultTime : TimeOfDay) (since t : DateTime),
    1 ≤ month ∧ month ≤ 12 → term.content.Perm (everyDayIn month looped time) →
    IsLeastAfter (IsInMonth month (clockOr time defaultTime)) since t →
    term.next since true defaultTime (some .none) = .ok t := by
  intro h
  let since : DateTime := ⟨⟨2024, 3, 5, by decide⟩, 0, 0, 0, 0⟩
  let nextDay : DateTime := ⟨⟨2024, 3, 6, by decide⟩, 0, 0, 0, 0⟩
  have hleast : IsLeastAfter (IsInMonth 3 .midnight) since nextDay := by
    refine ⟨⟨rfl, rfl, rfl, rfl⟩, by decide, fun u hu hlater => ?_⟩
    have hsince : since.IsAt .midnight := ⟨rfl, rfl, rfl⟩
    have hnextDay : nextDay.IsAt .midnight := ⟨rfl, rfl, rfl⟩
    exact (DateTime.IsAt.le_iff hnextDay hu.2).2 ((DateTime.IsAt.lt_iff hsince hu.2).1 hlater)
  have hnext := h 3 false none ⟨(everyDayIn 3 false none).map .content⟩ .midnight since nextDay
    (by decide) (.refl _) hleast
  exact absurd hnext (by decide +kernel)

end Term

end TimePhrase
