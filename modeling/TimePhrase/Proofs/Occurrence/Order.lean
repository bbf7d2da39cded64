import TimePhrase.Proofs.Occurrence.Points

/-!
# Passes keep the order of dates

A move onto a point, or by a span of days or more, does not bring two dates out of order. Neither
does bringing them back onto a weekday, and so one pass through a plan leads from the later of two
instants to a date that is no earlier. This holds for all numbers that parts may have.
-/

namespace TimePhrase

/-- The move leads later dates to later dates, or to the same one. -/
def KeepsOrder (move : DateTime → Option DateTime) : Prop :=
  ∀ ⦃t u t' u' : DateTime⦄, t.date.toDays ≤ u.date.toDays → move t = some t' → move u = some u' →
    t'.date.toDays ≤ u'.date.toDays

namespace KeepsOrder

variable {move next : DateTime → Option DateTime} {count : Int}

theorem some : KeepsOrder .some := by
  intro t u t' u' hle ht hu
  rwa [← Option.some.inj ht, ← Option.some.inj hu]

theorem bind (hmove : KeepsOrder move) (hnext : KeepsOrder next) :
    KeepsOrder fun t => (move t).bind next := by
  intro t u t' u' hle ht hu
  obtain ⟨tMoved, htMoved, ht⟩ := Option.bind_eq_some_iff.1 ht
  obtain ⟨uMoved, huMoved, hu⟩ := Option.bind_eq_some_iff.1 hu
  exact hnext (hmove hle htMoved huMoved) ht hu

theorem addDays? (count : Int) : KeepsOrder (·.addDays? count) := by
  intro t u t' u' hle ht hu
  have ht := (DateTime.addDays?_eq_some_iff.1 ht).1
  have hu := (DateTime.addDays?_eq_some_iff.1 hu).1
  omega

theorem addMonths? (count : Int) : KeepsOrder (·.addMonths? count) := by
  intro t u t' u' hle ht hu
  obtain ⟨⟨htIndex, htDay⟩, -⟩ := DateTime.addMonths?_eq_some_iff.1 ht
  obtain ⟨⟨huIndex, huDay⟩, -⟩ := DateTime.addMonths?_eq_some_iff.1 hu
  rcases Nat.lt_or_eq_of_le (Date.monthIndex_le_of_toDays_le hle) with hlt | heq
  · exact Nat.le_of_lt (Date.toDays_lt_of_monthIndex_lt (by omega))
  · have hindex : t'.date.monthIndex = u'.date.monthIndex := by omega
    obtain ⟨hyear, hmonth⟩ := Date.monthIndex_eq_iff.1 hindex
    have hday : t.date.day ≤ u.date.day := by
      have hpos := u.date.day_bounds.1
      rw [t.date.toDays_eq, u.date.toDays_eq, heq] at hle
      omega
    refine Date.toDays_le_of_day_le hindex ?_
    rw [htDay, huDay, hyear, hmonth]
    omega

theorem addSpan? {unit : TimeUnit} (hunit : unit.isDayOrCoarser = true) (count : Int) :
    KeepsOrder (·.addSpan? unit count) := by
  cases unit with
  | year => exact addMonths? _
  | month => exact addMonths? _
  | week => exact addDays? _
  | day => exact addDays? _
  | hour => cases hunit
  | minute => cases hunit

end KeepsOrder

theorem Span.keepsOrder_addCounts? {cs : List (TimeUnit × Int)}
    (hcs : ∀ c ∈ cs, c.1.isDayOrCoarser = true) : KeepsOrder (addCounts? · cs) := by
  induction cs with
  | nil => exact .some
  | cons c rest ih =>
    obtain ⟨hc, hrest⟩ := List.forall_mem_cons.1 hcs
    exact (KeepsOrder.addSpan? hc c.2).bind (ih hrest)

theorem Span.LeavesTime.isDayOrCoarser {cs : List (TimeUnit × Int)} {looped : Bool}
    (h : (counts cs looped).LeavesTime) : ∀ c ∈ cs, c.1.isDayOrCoarser = true := by
  intro c hc
  have hmem : c.1 ∈ cs.map (·.1) := List.mem_map_of_mem hc
  cases hunit : c.1 with
  | hour => simp [LeavesTime, scope, Scope.of, ← hunit, hmem] at h
  | minute => simp [LeavesTime, scope, Scope.of, ← hunit, hmem] at h
  | _ => rfl

theorem Span.keepsOrder_moveTo? {s : Span} (h : s.LeavesTime) (fenced : Bool) :
    KeepsOrder (s.moveTo? · fenced) := by
  cases s with
  | days count => exact .addDays? count
  | counts cs looped =>
    have hcs := h.isDayOrCoarser
    cases fenced with
    | false => exact keepsOrder_addCounts? hcs
    | true => exact keepsOrder_addCounts? fun c hc => hcs c (List.mem_filter.1 hc).1

namespace Point

theorem keepsOrder_toWeekday? (n : Int) (fenced : Bool) : KeepsOrder (toWeekday? · n fenced) := by
  intro t u t' u' hle ht hu
  have htweekday := t.date.weekday_bounds
  have huweekday := u.date.weekday_bounds
  have htdays := t.date.toDays_eq_weekIndex
  have hudays := u.date.toDays_eq_weekIndex
  have hweeks := Date.weekIndex_le_of_toDays_le hle
  cases fenced with
  | false =>
    have ht := (toWeekday?_unfenced.1 ht).1
    have hu := (toWeekday?_unfenced.1 hu).1
    omega
  | true =>
    have htstart := t.date.monthIndex_bounds.1
    have htlength := Date.monthLength_bounds t.date.monthIndex
    have hulength := Date.monthLength_bounds u.date.monthIndex
    have ht := toDays_of_toWeekday?_fenced rfl ht
    have hu := toDays_of_toWeekday?_fenced rfl hu
    -- In one month both are fenced by the same days, and later months lie behind.
    rcases Nat.lt_or_eq_of_le (Date.monthIndex_le_of_toDays_le hle) with hlt | heq
    · have hmonths := Date.monthStart_add_le htstart hlt
      omega
    · rw [← heq] at hu
      omega

theorem keepsOrder_moveTo? (p : Point) (fenced : Bool) : KeepsOrder (p.moveTo? · fenced) := by
  intro t u t' u' hle ht hu
  have hyears := Date.year_le_of_toDays_le hle
  have hday (hday : p.IsDay) (hexists : p.WeekdayExists)
      (hcycle : p.cycleIndex t'.date ≤ p.cycleIndex u'.date) : t'.date.toDays ≤ u'.date.toDays :=
    toDays_le_of_cycleIndex_le hday (holdsAt_of_moveTo? hexists ht) (holdsAt_of_moveTo? hexists hu)
      hcycle
  cases p with
  | time clock inverted =>
    rwa [date_of_moveTo?_time rfl ht, date_of_moveTo?_time rfl hu]
  | date d m y looped =>
    refine hday trivial trivial ?_
    cases y with
    | some y => exact Nat.le_refl 0
    | none =>
      have htyear : t'.date.year = t.date.year := Int.ofNat.inj (moveTo?_date.1 ht).1.1
      have huyear : u'.date.year = u.date.year := Int.ofNat.inj (moveTo?_date.1 hu).1.1
      simp only [cycleIndex]
      omega
  | monthDay d looped =>
    refine hday trivial trivial ?_
    have htindex := (moveTo?_monthDay.1 ht).1.1
    have huindex := (moveTo?_monthDay.1 hu).1.1
    have hmonths := Date.monthIndex_le_of_toDays_le hle
    simp only [cycleIndex]
    omega
  | weekday n looped => exact keepsOrder_toWeekday? n fenced hle ht hu
  | month n looped =>
    obtain ⟨htyear, htmonth, htday⟩ := (moveTo?_month.1 ht).1
    obtain ⟨huyear, humonth, huday⟩ := (moveTo?_month.1 hu).1
    refine Date.toDays_le_of_first htday ?_
    unfold Date.monthIndex
    omega
  | year y =>
    obtain ⟨htyear, htmonth, htday⟩ := (moveTo?_year.1 ht).1
    obtain ⟨huyear, humonth, huday⟩ := (moveTo?_year.1 hu).1
    refine Date.toDays_le_of_first htday ?_
    unfold Date.monthIndex
    omega

theorem keepsOrder_realign? (p : Point) : KeepsOrder p.realign? := by
  cases p with
  | weekday n looped =>
    intro t u t' u' hle ht hu
    rw [realign?_weekday] at ht hu
    exact keepsOrder_toWeekday? n true hle ht hu
  | _ => exact .some

end Point

namespace Plan

variable {plan : Plan} {steps : List Step} {t u t' u' : DateTime}

theorem keepsOrder_applySteps (h : ∀ step ∈ steps, KeepsOrder step.moveTo?) :
    KeepsOrder (applySteps steps) := by
  induction steps with
  | nil => exact .some
  | cons step rest ih =>
    obtain ⟨hstep, hrest⟩ := List.forall_mem_cons.1 h
    exact hstep.bind (ih hrest)

theorem keepsOrder_realign? (plan : Plan) : KeepsOrder plan.realign? := by
  unfold realign?
  generalize plan.steps = steps
  induction steps with
  | nil => exact .some
  | cons step rest ih =>
    have hstep : KeepsOrder step.content.realign? := by
      cases step.content with
      | point p => exact p.keepsOrder_realign?
      | span s => exact .some
    exact hstep.bind ih

theorem keepsOrder_settle? (h : ∀ step ∈ steps, KeepsOrder step.moveTo?) :
    KeepsOrder (plan.settle? steps) := by
  intro t u t' u' hle ht hu
  obtain ⟨tMoved, htMoved, ht⟩ := settle?_eq_some_iff.1 ht
  obtain ⟨uMoved, huMoved, hu⟩ := settle?_eq_some_iff.1 hu
  have hmoved := keepsOrder_applySteps h hle htMoved huMoved
  refine plan.keepsOrder_realign? ?_ ht hu
  rwa [date_setDefaultTime, date_setDefaultTime]

end Plan

end TimePhrase
