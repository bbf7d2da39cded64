import TimePhrase.Proofs.Occurrence.Sound
import TimePhrase.Proofs.Part.Recurrence

/-!
# Terms made of points

A term that names points and no spans occurs at the instants on all of its points, at its time
of day. What it leaves open below its points is settled by convention: a month starts with its
first day, and a year with its first month. Passes through the points of such a term never pass
an occurrence.
-/

namespace TimePhrase

/-- The time of day that a point names. -/
def Point.clock? : Point → Option TimeOfDay
  | .time clock _ => some clock
  | _ => none

/-- The span settles neither the hour nor the minute. -/
def Span.LeavesTime (s : Span) : Prop := s.scope.has .hour = false ∧ s.scope.has .minute = false

/-- The counts of the span are positive. A day relative to today is not a count. -/
def Span.HasPositiveCounts : Span → Prop
  | counts cs _ => ∀ c ∈ cs, 0 < c.2
  | days _ => True

theorem DateTime.IsAt.microsOfDay_eq {t u : DateTime} {clock : TimeOfDay} (ht : t.IsAt clock)
    (hu : u.IsAt clock) : t.microsOfDay = u.microsOfDay := by
  obtain ⟨htime, htsecond, htmicro⟩ := ht
  obtain ⟨hutime, husecond, humicro⟩ := hu
  obtain ⟨hhour, hminute⟩ := TimeOfDay.mk.inj (htime.trans hutime.symm)
  rw [microsOfDay, microsOfDay, hhour, hminute, htsecond, husecond, htmicro, humicro]

theorem DateTime.IsAt.le_iff {t u : DateTime} {clock : TimeOfDay} (ht : t.IsAt clock)
    (hu : u.IsAt clock) : t ≤ u ↔ t.date.toDays ≤ u.date.toDays := by
  rw [← not_lt, lt_iff_of_microsOfDay_eq (hu.microsOfDay_eq ht), Nat.not_lt]

theorem DateTime.IsAt.lt_iff {t u : DateTime} {clock : TimeOfDay} (ht : t.IsAt clock)
    (hu : u.IsAt clock) : t < u ↔ t.date.toDays < u.date.toDays := by
  rw [← not_le, hu.le_iff ht, Nat.not_le]

namespace Term

variable {term : Term} {defaultTime : TimeOfDay} {t u : DateTime}

/-- The term made of the given points. -/
def ofPoints (points : List Point) : Term := ⟨points.map fun p => .content (.point p)⟩

@[simp] theorem content_ofPoints (points : List Point) :
    (ofPoints points).content = points.map .point := by
  induction points with
  | nil => rfl
  | cons p rest ih => exact congrArg (Content.point p :: ·) ih

@[simp] theorem points_ofPoints (points : List Point) : (ofPoints points).points = points := by
  simp [Term.points, List.filterMap_map, Function.comp_def, Content.point?]

@[simp] theorem spans_ofPoints (points : List Point) : (ofPoints points).spans = [] := by
  simp [Term.spans, List.filterMap_map, Function.comp_def, Content.span?]

/-- The time of day that the term names, or else the default one. -/
def clock (term : Term) (defaultTime : TimeOfDay) : TimeOfDay :=
  (term.points.findSome? Point.clock?).getD defaultTime

/-- A term made of points occurs at an instant. -/
structure OccursAt (term : Term) (defaultTime : TimeOfDay) (t : DateTime) : Prop where
  points : ∀ p ∈ term.points, p.holdsAt t = true
  /-- The instant is the named time of day, or the default one, to the microsecond. -/
  clock : t.IsAt (term.clock defaultTime)
  /-- Months and years without a day or a time mean the first day of a month. -/
  firstDay : (∀ p ∈ term.points, p.kind = .month ∨ p.kind = .year) → t.date.day = 1
  /-- Years alone mean their first month. -/
  firstMonth : (∀ p ∈ term.points, p.kind = .year) → t.date.month = 1

theorem OccursAt.le_iff (ht : term.OccursAt defaultTime t) (hu : term.OccursAt defaultTime u) :
    t ≤ u ↔ t.date.toDays ≤ u.date.toDays := ht.clock.le_iff hu.clock

theorem OccursAt.lt_iff (ht : term.OccursAt defaultTime t) (hu : term.OccursAt defaultTime u) :
    t < u ↔ t.date.toDays < u.date.toDays := ht.clock.lt_iff hu.clock

/-- Where neither the points other than times of day nor the spans settle the hour or the minute,
every pass that ends with the time of day leads to the time of day of the term. -/
theorem isAt_clock_of_settle? {steps : List Step} (hpoints : term.points ≠ [])
    (hspans : ∀ s ∈ term.spans, s.LeavesTime) (hlast : term.EndsWithTime steps)
    (h : (Plan.forTerm term defaultTime).settle? steps t = some u) :
    u.IsAt (term.clock defaultTime) := by
  unfold clock
  cases hclock : term.points.findSome? Point.clock? with
  | some clock =>
    obtain ⟨p, hp, hclock⟩ := List.exists_of_findSome?_eq_some hclock
    cases p with
    | time clock inverted =>
      obtain rfl := Option.some.inj hclock
      have htime := mem_points.1 hp
      obtain ⟨front, rfl⟩ := hlast _ inverted htime
      exact Plan.isAt_of_settle? (defaultTime_forTerm_eq_none htime) h
    | _ => cases hclock
  | none =>
    have hnone := List.findSome?_eq_none_iff.1 hclock
    have hscope (unit : TimeUnit) (hspan : ∀ s ∈ term.spans, s.scope.has unit = false)
        (hunit : ∀ p : Point, p.clock? = none → p.scope.has unit = false) :
        term.scope.has unit = false := by
      rw [← Bool.not_eq_true, Term.scope, Scope.has_sup]
      rintro ⟨scope, hscope, hhas⟩
      obtain ⟨c, hc, rfl⟩ := List.mem_map.1 hscope
      cases c with
      | point p =>
        have hp := hunit p (hnone p (mem_points.2 hc))
        cases hp.symm.trans hhas
      | span s =>
        have hs := hspan s (mem_spans.2 hc)
        cases hs.symm.trans hhas
    refine Plan.isAt_defaultTime_of_settle? (defaultTime_forTerm ?_
      (hscope .hour (fun s hs => (hspans s hs).1) ?_)
      (hscope .minute (fun s hs => (hspans s hs).2) ?_)) h
    · obtain ⟨p, hpoint⟩ := List.exists_mem_of_ne_nil _ hpoints
      have hp := hnone p hpoint
      refine ⟨p, mem_points.1 hpoint, ?_⟩
      cases p with
      | time clock inverted => cases hp
      | date d m y looped => cases y <;> exact ⟨.day, rfl, rfl⟩
      | monthDay | weekday => exact ⟨.day, rfl, rfl⟩
      | month => exact ⟨.month, rfl, rfl⟩
      | year => exact ⟨.year, rfl, rfl⟩
    · intro p hp
      cases p with
      | time clock inverted => cases hp
      | date d m y looped => cases y <;> rfl
      | _ => rfl
    · intro p hp
      cases p with
      | time clock inverted => cases hp
      | date d m y looped => cases y <;> rfl
      | _ => rfl

end Term

namespace Plan

variable {plan : Plan} {all ladder : List Point} {p : Point} {t u m : DateTime}

/-- A weekday is fenced below a month only, so it is not fenced as the coarsest point. -/
theorem kind_ne_weekday_of_fenced {term : Term} {rest : List Point} (hvalid : ValidParts term.parts)
    (hladder : term.ladder = p :: rest) (hfenced : (Step.ofPoint term.points p).fenced = true) :
    p.kind ≠ .weekday := by
  intro hkind
  obtain ⟨n, looped, rfl⟩ := Point.eq_weekday_of_kind hkind
  have hpairwise := hvalid.pairwise_above
  rw [hladder] at hpairwise
  simp only [Step.ofPoint, Point.kind, decide_true, Bool.true_and, List.any_eq_true] at hfenced
  obtain ⟨q, hq, hmonth⟩ := hfenced
  rw [← Term.mem_ladder_iff, hladder] at hq
  rcases List.mem_cons.1 hq with rfl | hq
  · simp [Point.scope, Scope.of] at hmonth
  · have htime := Point.isTime_of_above (p := .weekday n looped) trivial
      ((List.pairwise_cons.1 hpairwise).1 q hq)
    cases q <;> simp_all [Point.isTime, Point.scope, Scope.of]

/-- A pass through points does not pass an instant on all of them. -/
theorem exists_applySteps_le (all : List Point) (hladder : ladder.Pairwise Point.Above)
    (hu : ∀ p ∈ ladder, p.holdsAt u = true) (hle : t.date.toDays ≤ u.date.toDays)
    (hfirst : ∀ p ∈ ladder.head?, p.kind = .weekday → (Step.ofPoint all p).fenced = true →
      t.date.day = 1 ∨ p.holdsAt t = true) :
    ∃ m, applySteps (ladder.map (Step.ofPoint all)) t = some m ∧
      m.date.toDays ≤ u.date.toDays := by
  induction ladder generalizing t with
  | nil => exact ⟨t, rfl, hle⟩
  | cons p rest ih =>
    obtain ⟨habove, hrest⟩ := List.pairwise_cons.1 hladder
    obtain ⟨moved, hmoved, hmovedLe⟩ := Point.exists_moveTo?_le (hu p (List.mem_cons_self ..)) hle
      fun hfenced hkind => hfirst p rfl hkind hfenced
    have hbelow : ∀ q ∈ rest.head?, q.kind = .weekday → moved.date.day = 1 := by
      intro q hq hkind
      obtain ⟨n, looped, rfl⟩ := (habove q (List.mem_of_mem_head? hq)).eq_month_of_weekday hkind
      exact (Point.moveTo?_month.1 hmoved).1.2.2
    obtain ⟨m, hm, hmle⟩ := ih hrest (fun q hq => hu q (List.mem_cons_of_mem _ hq)) hmovedLe
      fun q hq hkind _ => Or.inl (hbelow q hq hkind)
    refine ⟨m, ?_, hmle⟩
    have hstep : (Step.ofPoint all p).moveTo? t = some moved := hmoved
    rw [List.map_cons, applySteps, hstep]
    exact hm

/-- A pass through points does not pass an instant on all of them that lies in the same cycle of the
first one or in a later one. -/
theorem exists_applySteps_le_of_cycleIndex_le (all : List Point)
    (hladder : (p :: ladder).Pairwise Point.Above) (hu : ∀ q ∈ p :: ladder, q.holdsAt u = true)
    (hle : p.cycleIndex t.date ≤ p.cycleIndex u.date)
    (hfenced : (Step.ofPoint all p).fenced = true → p.kind ≠ .weekday) :
    ∃ m, applySteps ((p :: ladder).map (Step.ofPoint all)) t = some m ∧
      m.date.toDays ≤ u.date.toDays := by
  obtain ⟨habove, hrest⟩ := List.pairwise_cons.1 hladder
  obtain ⟨moved, hmoved, hmovedLe⟩ := Point.exists_moveTo?_le_of_cycleIndex_le
    (hu p (List.mem_cons_self ..)) hle hfenced
  obtain ⟨m, hm, hmu⟩ := exists_applySteps_le all hrest
    (fun q hq => hu q (List.mem_cons_of_mem _ hq)) hmovedLe (by
      rintro q hq hkind -
      obtain ⟨n, looped, rfl⟩ := (habove q (List.mem_of_mem_head? hq)).eq_month_of_weekday hkind
      exact Or.inl (Point.moveTo?_month.1 hmoved).1.2.2)
  have hstep : (Step.ofPoint all p).moveTo? t = some moved := hmoved
  refine ⟨m, ?_, hmu⟩
  rw [List.map_cons, applySteps, hstep]
  exact hm

/-- Times of day leave the date as it is. -/
theorem date_of_applySteps (htimes : ∀ q ∈ ladder, q.isTime = true)
    (h : applySteps (ladder.map (Step.ofPoint all)) t = some m) : m.date = t.date := by
  induction ladder generalizing t with
  | nil => exact Option.some.inj h ▸ rfl
  | cons q rest ih =>
    obtain ⟨moved, hmoved, h⟩ := Option.bind_eq_some_iff.1 h
    rw [ih (fun r hr => htimes r (List.mem_cons_of_mem _ hr)) h]
    exact Point.date_of_moveTo?_time (htimes q (List.mem_cons_self ..)) hmoved

/-- A pass through points below a month stays in the month. -/
theorem monthIndex_of_applySteps {n : Int} {looped : Bool} (hmonth : .month n looped ∈ all)
    (habove : ∀ q ∈ ladder, (Point.month n looped).Above q)
    (hweekdays : ∀ q ∈ ladder, q.WeekdayExists)
    (h : applySteps (ladder.map (Step.ofPoint all)) t = some m) :
    m.date.monthIndex = t.date.monthIndex := by
  induction ladder generalizing t with
  | nil => exact Option.some.inj h ▸ rfl
  | cons q rest ih =>
    obtain ⟨moved, hmoved, h⟩ := Option.bind_eq_some_iff.1 h
    rw [ih (fun r hr => habove r (List.mem_cons_of_mem _ hr))
      (fun r hr => hweekdays r (List.mem_cons_of_mem _ hr)) h]
    exact Point.monthIndex_of_moveTo? (habove q (List.mem_cons_self ..))
      (hweekdays q (List.mem_cons_self ..)) (fenced_ofPoint hmonth rfl) hmoved

/-- A pass through points stays in the cycle of a point above them. -/
theorem cycleIndex_of_applySteps_below (habove : ∀ q ∈ ladder, p.Above q) (hp : p ∈ all)
    (hweekdays : ∀ q ∈ ladder, q.WeekdayExists)
    (h : applySteps (ladder.map (Step.ofPoint all)) t = some m) :
    p.cycleIndex m.date = p.cycleIndex t.date := by
  induction ladder generalizing t with
  | nil => exact Option.some.inj h ▸ rfl
  | cons q rest ih =>
    obtain ⟨moved, hmoved, hpass⟩ := Option.bind_eq_some_iff.1 h
    obtain ⟨hqWeekday, hweekdays⟩ := List.forall_mem_cons.1 hweekdays
    obtain ⟨hq, habove⟩ := List.forall_mem_cons.1 habove
    rw [ih habove hweekdays hpass]
    refine hq.cycleIndex_of_moveTo? hqWeekday (fun hkind => ?_) hmoved
    obtain ⟨n, looped, rfl⟩ := hq.eq_month_of_weekday hkind
    exact fenced_ofPoint hp rfl hkind

/-- A pass through points stays in the cycle of the first one. -/
theorem cycleIndex_of_applySteps (hladder : (p :: ladder).Pairwise Point.Above) (hp : p ∈ all)
    (hweekdays : ∀ q ∈ p :: ladder, q.WeekdayExists)
    (hfenced : (Step.ofPoint all p).fenced = true → p.kind ≠ .weekday)
    (h : applySteps ((p :: ladder).map (Step.ofPoint all)) t = some m) :
    p.cycleIndex m.date = p.cycleIndex t.date := by
  obtain ⟨moved, hmoved, hpass⟩ := Option.bind_eq_some_iff.1 h
  obtain ⟨hpWeekday, hweekdays⟩ := List.forall_mem_cons.1 hweekdays
  rw [cycleIndex_of_applySteps_below (List.pairwise_cons.1 hladder).1 hp hweekdays hpass]
  exact Point.cycleIndex_of_moveTo? hpWeekday hfenced hmoved

/-- After an advance, the points below do not lead back before the instant advanced to. -/
theorem toDays_le_of_applySteps (hp : p ∈ all) (hholds : p.holdsAt t = true)
    (hadvance : p.inNextCycle? t = some u) (habove : ∀ q ∈ ladder, p.Above q)
    (hweekdays : ∀ q ∈ ladder, q.WeekdayExists)
    (h : applySteps ((p :: ladder).map (Step.ofPoint all)) u = some m) :
    u.date.toDays ≤ m.date.toDays := by
  obtain ⟨moved, hmoved, hpass⟩ := Option.bind_eq_some_iff.1 h
  have hmoved : p.moveTo? u (Step.ofPoint all p).fenced = some moved := hmoved
  have hdate : moved.date = u.date := by
    by_cases htime : p.isTime = true
    · exact Point.date_of_moveTo?_time htime hmoved
    · rw [Point.moveTo?_inNextCycle? hholds (Bool.not_eq_true _ ▸ htime) hadvance] at hmoved
      exact Option.some.inj hmoved ▸ rfl
  have hday (hday : p.IsDay) : u.date.toDays ≤ m.date.toDays := by
    have hkept := date_of_applySteps (fun q hq => Point.isTime_of_above hday (habove q hq)) hpass
    exact Nat.le_of_eq (congrArg Date.toDays (hkept.trans hdate).symm)
  cases p with
  | time clock inverted =>
    cases ladder with
    | nil =>
      obtain rfl : moved = m := Option.some.inj hpass
      exact Nat.le_of_eq (congrArg Date.toDays hdate.symm)
    | cons q rest => exact (habove q (List.mem_cons_self ..)).elim
  | date | monthDay | weekday => exact hday trivial
  | month n looped =>
    have hfirst := (Point.moveTo?_month.1 hmoved).1.2.2
    rw [hdate] at hfirst
    refine Date.toDays_le_of_first hfirst (Nat.le_of_eq ?_)
    rw [monthIndex_of_applySteps hp habove hweekdays hpass, hdate]
  | year y => exact absurd hadvance nofun

theorem foldlM_realign?_eq_self (h : ∀ p ∈ ladder, p.kind = .weekday → p.holdsAt t = true) :
    (ladder.map (Step.ofPoint all)).foldlM (fun t step => step.content.realign? t) t = some t := by
  induction ladder with
  | nil => rfl
  | cons p rest ih =>
    have hp : (Step.ofPoint all p).content.realign? t = some t := by
      cases p with
      | weekday n looped => exact Point.realign?_eq_self (h _ (List.mem_cons_self ..) rfl)
      | _ => rfl
    rw [List.map_cons, List.foldlM_cons, hp]
    exact ih fun q hq => h q (List.mem_cons_of_mem _ hq)

/-- Spans have no part in bringing an instant back onto the weekdays. -/
theorem realign?_forTerm {term : Term} {defaultTime : TimeOfDay} :
    (forTerm term defaultTime).realign? t = (term.ladder.map (Step.ofPoint term.points)).foldlM
      (fun t step => step.content.realign? t) t := by
  have hspans : ∀ spans : List Span, (spans.map (Step.ofSpan term.points)).foldlM
      (fun t step => step.content.realign? t) t = some t := by
    intro spans
    induction spans with
    | nil => rfl
    | cons s rest ih => exact ih
  rw [realign?, forTerm, List.foldlM_append, hspans]
  rfl

/-- Bringing an instant back onto a weekday moves it forward by less than a week. -/
theorem toDays_le_of_foldlM_realign? (hladder : ladder.Pairwise Point.Above)
    (hweekdays : ∀ p ∈ ladder, p.WeekdayExists)
    (h : (ladder.map (Step.ofPoint all)).foldlM (fun t step => step.content.realign? t) t
      = some m) : m.date.toDays ≤ t.date.toDays + 6 := by
  induction ladder generalizing t with
  | nil => exact Option.some.inj h ▸ Nat.le_add_right ..
  | cons p rest ih =>
    obtain ⟨habove, hrest⟩ := List.pairwise_cons.1 hladder
    rw [List.map_cons, List.foldlM_cons] at h
    obtain ⟨moved, hmoved, hpass⟩ := Option.bind_eq_some_iff.1 h
    have hmoved : p.realign? t = some moved := hmoved
    cases p with
    | weekday n looped =>
      have hbelow : ∀ q ∈ rest, q.kind = .weekday → q.holdsAt moved = true := fun q hq hkind =>
        absurd ((habove q hq).eq_month_of_weekday hkind) (by simp)
      obtain rfl : moved = m := Option.some.inj ((foldlM_realign?_eq_self hbelow).symm.trans hpass)
      exact Point.toDays_le_of_realign? (hweekdays _ (List.mem_cons_self ..)) hmoved
    | _ =>
      obtain rfl : t = moved := Option.some.inj hmoved
      exact ih hrest (fun q hq => hweekdays q (List.mem_cons_of_mem _ hq)) hpass

end Plan

end TimePhrase
