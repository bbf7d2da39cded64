import TimePhrase.Proofs.Occurrence.Ahead

/-!
# Offsets with finer points

A number of days, weeks, months or years that does not repeat shifts an instant, and points that
recur within that unit snap it to a day and a time of day. The snap may lead back, but not out of
the period of the coarsest point, and the shift has led into a later one. The first candidate
therefore lies in the future, and a search returns what the expression says.
-/

namespace TimePhrase

open Plan

/-- The number of the period of a unit that a date lies in. Hours and minutes are those of a day. -/
def TimeUnit.indexOf (unit : TimeUnit) (d : Date) : Nat :=
  match unit with
  | year => d.year
  | month => d.monthIndex
  | week => d.weekIndex
  | day | hour | minute => d.toDays

namespace Point

variable {p top : Point} {unit : TimeUnit} {d e : Date}

/-- The point recurs by the unit or by a finer one. -/
def RecursWithin (p : Point) (unit : TimeUnit) : Prop :=
  ∃ cycle, p.cycle? = some cycle ∧ unit.rank ≤ cycle.rank

/-- A snap to the point does not leave the period of the unit. A weekday may lie in another month
or year than the rest of its week. -/
def KeepsTo (p : Point) (unit : TimeUnit) : Prop :=
  match p, unit with
  | time .., .day | weekday .., .week | monthDay .., .month => True
  | monthDay .., .year | date .., .year | month .., .year => True
  | _, _ => False

/-- Dates in one cycle of the coarsest point lie in one period of the unit, if that point or one
below it keeps to the period. -/
theorem KeepsTo.indexOf_eq (hkeeps : p.KeepsTo unit) (htop : top = p ∨ top.Above p)
    (hwithin : top.RecursWithin unit) (h : top.cycleIndex d = top.cycleIndex e) :
    unit.indexOf d = unit.indexOf e := by
  obtain ⟨cycle, hcycle, hrank⟩ := hwithin
  cases top with
  | time clock inverted => rw [Date.eq_of_toDays_eq h]
  | weekday n looped =>
    obtain rfl := Option.some.inj hcycle
    rcases htop with rfl | habove
    · cases unit with
      | week => exact h
      | _ => exact hkeeps.elim
    · cases p with
      | time clock inverted =>
        cases unit with
        | day => exact absurd hrank (by decide)
        | _ => exact hkeeps.elim
      | _ => exact habove.elim
  | monthDay n looped =>
    obtain rfl := Option.some.inj hcycle
    cases unit with
    | year => exact (Date.monthIndex_eq_iff.1 h).1
    | month => exact h
    | _ => exact absurd hrank (by decide)
  | date n m y looped =>
    cases y with
    | some y => cases hcycle
    | none =>
      obtain rfl := Option.some.inj hcycle
      cases unit with
      | year => exact h
      | _ => exact absurd hrank (by decide)
  | month m looped =>
    obtain rfl := Option.some.inj hcycle
    cases unit with
    | year => exact h
    | _ => exact absurd hrank (by decide)
  | year y => cases hcycle

end Point

namespace Term

/-- The expression names an amount of one unit, which does not repeat, and points that recur within
the unit. -/
structure IsOffset (term : Term) (unit : TimeUnit) (count : Int) : Prop where
  unlimited : ∀ part ∈ term.parts, part.isLimiter = false
  /-- An amount of days may be that of a word such as "tomorrow". -/
  spans : term.spans = [.counts [(unit, count)] false] ∨ unit = .day ∧ term.spans = [.days count]
  coarse : unit.isDayOrCoarser = true
  forward : 1 ≤ count
  points : term.points ≠ []
  within : ∀ p ∈ term.points, p.RecursWithin unit

/-- Moves an instant onto the points of a term, from coarse to fine. -/
def snap? (term : Term) (t : DateTime) : Option DateTime :=
  applySteps (term.ladder.map (Step.ofPoint term.points)) t

variable {term : Term} {unit : TimeUnit} {count : Int} {defaultTime : TimeOfDay}
  {since t r : DateTime}

/-- One pass through the plan of a coherent term leaves nothing to be brought back. -/
theorem Coherent.settle?_steps_eq (h : term.Coherent) :
    (forTerm term defaultTime).settle? (forTerm term defaultTime).steps t =
      (forTerm term defaultTime).moveBy (forTerm term defaultTime).steps t := by
  rw [settle?]
  cases hmoved : (forTerm term defaultTime).moveBy (forTerm term defaultTime).steps t with
  | none => rfl
  | some moved =>
    obtain ⟨reached, hreached, rfl⟩ := Option.map_eq_some_iff.1 hmoved
    obtain ⟨shifted, -, hsnap⟩ : ∃ shifted,
        applySteps (term.spans.map (Step.ofSpan term.points)) t = some shifted ∧
          applySteps (term.ladder.map (Step.ofPoint term.points)) shifted = some reached := by
      rw [forTerm, applySteps_append] at hreached
      exact Option.bind_eq_some_iff.1 hreached
    exact realign?_eq_self
      (holdsAt_setDefaultTime_of_applySteps h.valid h.weekdays defaultTime hsnap)

namespace IsOffset

theorem content_ne_nil (h : term.IsOffset unit count) : term.content ≠ [] := by
  obtain ⟨p, hp⟩ := List.exists_mem_of_ne_nil _ h.points
  exact List.ne_nil_of_mem (mem_points.1 hp)

/-- The shift is one by the amount of the unit. -/
theorem applySteps_spans (h : term.IsOffset unit count) :
    applySteps (term.spans.map (Step.ofSpan term.points)) t = t.addSpan? unit count := by
  rcases h.spans with hspans | ⟨rfl, hspans⟩
  · have hunfenced : (Step.ofSpan term.points (.counts [(unit, count)] false)).fenced = false := by
      simp [Step.ofSpan, Span.isLooped]
    rw [hspans, List.map_singleton, applySteps, Step.moveTo?, hunfenced]
    simp [Step.ofSpan, Content.moveTo?, Span.moveTo?, Span.addCounts?, applySteps]
  · rw [hspans]
    exact bind_pure _

/-- The shift leads into a later cycle of the coarsest point. -/
theorem exists_startsAhead (h : term.IsOffset unit count) :
    ∃ top cycle, term.StartsAhead top cycle := by
  obtain ⟨p, hp⟩ := List.exists_mem_of_ne_nil _ h.points
  obtain ⟨top, below, hladder⟩ := List.exists_cons_of_ne_nil
    (List.ne_nil_of_mem (mem_ladder_iff.2 hp))
  have htop : top ∈ term.points := mem_ladder_iff.1 (by simp [hladder])
  obtain ⟨cycle, hcycle, hrank⟩ := h.within top htop
  have hforward := h.forward
  have hunit := h.coarse
  refine ⟨top, cycle, ⟨by rw [hladder]; rfl, hcycle, ?_⟩, ?_, ?_⟩
  · rcases h.spans with hspans | ⟨-, hspans⟩
    · rw [hspans, List.forall_mem_singleton]
      cases unit <;> first | exact ⟨rfl, rfl⟩ | cases hunit
    · rw [hspans, List.forall_mem_singleton]
      exact ⟨rfl, rfl⟩
  · rcases h.spans with hspans | ⟨rfl, hspans⟩
    · exact ⟨.counts [(unit, count)] false, by rw [hspans]; exact List.mem_cons_self .., rfl, _,
        List.mem_cons_self .., hrank⟩
    · refine ⟨.days count, by rw [hspans]; exact List.mem_cons_self .., ?_, hforward⟩
      -- No point recurs by less than a day.
      cases top with
      | date n m y looped =>
        cases y with
        | none => cases hcycle; exact absurd hrank (by decide)
        | some y => cases hcycle
      | time clock inverted => exact (Option.some.inj hcycle).symm
      | year y => cases hcycle
      | _ => cases hcycle; exact absurd hrank (by decide)
  · rcases h.spans with hspans | ⟨-, hspans⟩
    · rw [hspans, List.forall_mem_singleton]
      exact List.forall_mem_singleton.2 hforward
    · rw [hspans, List.forall_mem_singleton]
      exact Int.le_trans (by decide) hforward

/-- What the expression says: a shift, a snap and, where no time of day is named, the default one. -/
theorem moveBy_steps (h : term.IsOffset unit count) :
    (forTerm term defaultTime).moveBy (forTerm term defaultTime).steps t =
      ((t.addSpan? unit count).bind term.snap?).map (forTerm term defaultTime).setDefaultTime := by
  rw [moveBy, ← h.applySteps_spans]
  exact congrArg _ (applySteps_append _ _ t)

/-- An expression without limits is held to no bounds. -/
theorem boundsFor_eq (h : term.IsOffset unit count) :
    term.boundsFor since defaultTime none = .ok .none :=
  boundsFor_of_unlimited h.unlimited none

/-- A search returns what the expression says, which lies in the future if it is in the calendar. -/
theorem next_eq (h : term.IsOffset unit count) (hcoherent : term.Coherent) (since : DateTime)
    (defaultTime : TimeOfDay) :
    term.next since false defaultTime none = term.apply since defaultTime ∧
      match ((since.addSpan? unit count).bind term.snap?).map
        (forTerm term defaultTime).setDefaultTime with
      | some r => term.apply since defaultTime = .ok r ∧ since < r
      | none => term.apply since defaultTime = .error (.expression
          (.outsideCalendar (faultOf (forTerm term defaultTime).steps since))) := by
  obtain ⟨top, cycle, hahead⟩ := h.exists_startsAhead
  have hsettle : (forTerm term defaultTime).settle? (forTerm term defaultTime).steps since =
      ((since.addSpan? unit count).bind term.snap?).map
        (forTerm term defaultTime).setDefaultTime := by
    rw [hcoherent.settle?_steps_eq, h.moveBy_steps]
  rw [next_eq_bind h.content_ne_nil, h.boundsFor_eq, apply,
    ofTerm_eq_ok_iff.2 ⟨h.content_ne_nil, rfl⟩, ok_bind, h.moveBy_steps]
  simp only [Except.bind, searchBy, searchWithin, Threshold.of, Bounds.none, hsettle]
  cases hmoved : ((since.addSpan? unit count).bind term.snap?).map
      (forTerm term defaultTime).setDefaultTime with
  | none => exact ⟨rfl, rfl⟩
  | some r =>
    have hlater := hahead.lt_of_settle? hcoherent (hsettle.trans hmoved)
    have hadmits : (⟨since, false⟩ : Threshold).admits r = true := Threshold.admits_of_lt hlater
    simp only [advanceUntil_of_admits _ hadmits, ok_bind, pure_eq_ok, hlater, and_self]

/-- The snap does not leave the period of a unit that one of the points keeps to. -/
theorem indexOf_eq {shifted snapped : DateTime} {p : Point} (h : term.IsOffset unit count)
    (hcoherent : term.Coherent) (hp : p ∈ term.points) (hkeeps : p.KeepsTo unit)
    (hsnap : term.snap? shifted = some snapped) :
    unit.indexOf snapped.date = unit.indexOf shifted.date := by
  have hpairwise := hcoherent.valid.pairwise_above
  have hweekdays := hcoherent.weekdays
  have hmem := mem_ladder_iff.2 hp
  obtain ⟨top, below, hladder⟩ := List.exists_cons_of_ne_nil (List.ne_nil_of_mem hmem)
  have htop : top ∈ term.points := mem_ladder_iff.1 (by simp [hladder])
  unfold snap? at hsnap
  rw [hladder] at hsnap hpairwise hweekdays hmem
  have hcycle := cycleIndex_of_applySteps hpairwise htop hweekdays
    (kind_ne_weekday_of_fenced hcoherent.valid hladder) hsnap
  have habove : top = p ∨ top.Above p := by
    rcases List.mem_cons.1 hmem with rfl | hbelow
    · exact Or.inl rfl
    · exact Or.inr ((List.pairwise_cons.1 hpairwise).1 p hbelow)
  exact hkeeps.indexOf_eq habove (h.within top htop) hcycle

end IsOffset

/-- A search for an offset returns what the expression says. This lies in the future and, where a
point keeps to the unit, in the period that the shift leads to. A search fails only where the
shift or the snap leaves the calendar. -/
theorem next_offset (h : term.IsOffset unit count) (hvalid : checkParts term.parts = .ok ())
    (hrange : term.PointsInRange) (since : DateTime) (defaultTime : TimeOfDay) :
    term.next since false defaultTime none = term.apply since defaultTime ∧
    ((∃ shifted r, since.addSpan? unit count = some shifted ∧
        term.next since false defaultTime none = .ok r ∧ since < r ∧
        ((∃ p ∈ term.points, p.KeepsTo unit) →
          unit.indexOf r.date = unit.indexOf shifted.date)) ∨
      (∀ shifted, since.addSpan? unit count = some shifted → term.snap? shifted = none) ∧
        ∃ error, term.next since false defaultTime none = .error (.expression error) ∧
          error.kind = .noFutureOccurrence) := by
  have hcoherent : term.Coherent :=
    ⟨checkParts_eq_ok_iff.1 hvalid, fun _ hp => hrange.weekdayExists hp⟩
  obtain ⟨hnext, happly⟩ := h.next_eq hcoherent since defaultTime
  refine ⟨hnext, ?_⟩
  rw [hnext]
  cases hmoved : (since.addSpan? unit count).bind term.snap? with
  | none =>
    rw [hmoved] at happly
    refine Or.inr ⟨fun shifted hshifted => ?_, _, happly, rfl⟩
    rwa [hshifted] at hmoved
  | some snapped =>
    rw [hmoved] at happly
    obtain ⟨shifted, hshifted, hsnap⟩ := Option.bind_eq_some_iff.1 hmoved
    refine Or.inl ⟨shifted, _, hshifted, happly.1, happly.2, ?_⟩
    rintro ⟨p, hp, hkeeps⟩
    rw [date_setDefaultTime]
    exact h.indexOf_eq hcoherent hp hkeeps hsnap

/-- On the last day of January 2024, "in 1 month on the 1st at 8:00" is the first of February. -/
theorem next_offset_nextMonth :
    let since : DateTime := ⟨⟨2024, 1, 31, by decide⟩, 9, 0, 0, 0⟩
    let found : DateTime := ⟨⟨2024, 2, 1, by decide⟩, 8, 0, 0, 0⟩
    let term : Term := ⟨[.content (.span (.counts [(.month, 1)] false)),
      .content (.point (.monthDay 1 false)), .content (.point (.time ⟨8, 0⟩ false))]⟩
    term.next since false .midnight none = term.apply since .midnight ∧
      term.next since false .midnight none = .ok found ∧ since < found ∧
      TimeUnit.month.indexOf found.date = 2024 * 12 + 1 := by
  intro since found term
  have hoffset : term.IsOffset .month 1 := ⟨by decide, Or.inl rfl, rfl, by decide,
    List.cons_ne_nil _ _, by
      rintro p hp
      rcases List.mem_pair.1 hp with rfl | rfl
      · exact ⟨.month, rfl, by decide⟩
      · exact ⟨.day, rfl, by decide⟩⟩
  have hfound : term.next since false .midnight none = .ok found := by decide +kernel
  obtain ⟨hnext, ⟨shifted, r, hshifted, hr, hlater, hperiod⟩ | ⟨-, error, hfailed, -⟩⟩ :=
    next_offset hoffset (by decide +kernel) (by decide) since .midnight
  · obtain rfl := Except.ok.inj (hr.symm.trans hfound)
    refine ⟨hnext, hfound, hlater, ?_⟩
    rw [hperiod ⟨.monthDay 1 false, List.mem_cons_self .., trivial⟩]
    have hmonth : since.addSpan? .month 1 = some ⟨⟨2024, 2, 29, by decide⟩, 9, 0, 0, 0⟩ := by
      decide +kernel
    rw [← Option.some.inj (hmonth.symm.trans hshifted)]
    decide
  · cases hfailed.symm.trans hfound

end Term

end TimePhrase
