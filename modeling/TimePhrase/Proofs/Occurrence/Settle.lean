import TimePhrase.Proofs.Occurrence.Plan

/-!
# Where a plan settles

One pass through the plan of a valid term leads to an instant that lies on all of its points.
The part of a plan that is repeated after an advance still ends with the time of day, so the
time of day of every candidate is that of the term.
-/

namespace TimePhrase

/-- The points of a term have numbers that exist. -/
def Term.PointsInRange (term : Term) : Prop := ∀ p, .point p ∈ term.content → p.InRange

theorem Term.PointsInRange.weekdayExists {term : Term} {p : Point} (h : term.PointsInRange)
    (hp : p ∈ term.ladder) : p.WeekdayExists := (h p (Term.mem_ladder.1 hp)).weekdayExists

instance (term : Term) : Decidable term.PointsInRange :=
  decidable_of_iff (∀ p ∈ term.points, p.InRange) <| by
    simp only [Term.PointsInRange, Term.mem_points]

namespace Plan

variable {term : Term} {defaultTime : TimeOfDay} {plan : Plan} {steps : List Step}
  {t u : DateTime}

theorem applySteps_append (first second : List Step) (t : DateTime) :
    applySteps (first ++ second) t = (applySteps first t).bind (applySteps second) := by
  induction first generalizing t with
  | nil => rfl
  | cons step rest ih =>
    simp only [List.cons_append, applySteps, bind]
    cases step.moveTo? t with
    | none => rfl
    | some moved => exact ih moved

theorem settle?_eq_some_iff : plan.settle? steps t = some u ↔
    ∃ moved, applySteps steps t = some moved ∧
      plan.realign? (plan.setDefaultTime moved) = some u := by
  unfold settle? moveBy
  cases applySteps steps t <;> simp [bind]

/-- A pass takes the first steps and settles by those behind them from there. -/
theorem settle?_append_eq_some_iff {first second : List Step} :
    plan.settle? (first ++ second) t = some u ↔
      ∃ moved, applySteps first t = some moved ∧ plan.settle? second moved = some u := by
  simp only [settle?_eq_some_iff, applySteps_append, Option.bind_eq_some_iff]
  constructor
  · rintro ⟨reached, ⟨moved, hmoved, hreached⟩, hu⟩
    exact ⟨moved, hmoved, reached, hreached, hu⟩
  · rintro ⟨moved, hmoved, reached, hreached, hu⟩
    exact ⟨reached, ⟨moved, hmoved, hreached⟩, hu⟩

theorem fenced_ofPoint {all : List Point} {p q : Point} (hp : p ∈ all)
    (hmonth : p.scope.has .month = true) (hweekday : q.kind = .weekday) :
    (Step.ofPoint all q).fenced = true := by
  have hany : (all.any fun r => r.scope.has .month) = true := List.any_eq_true.2 ⟨p, hp, hmonth⟩
  simp [Step.ofPoint, hweekday, hany]

/-- An instant that is moved through points, each above those behind it, lies on all of them
and still on the points above them. -/
theorem holdsAt_of_applySteps {all ladder : List Point} (hall : ∀ p ∈ ladder, p ∈ all)
    (hladder : ladder.Pairwise Point.Above) (hweekdays : ∀ p ∈ ladder, p.WeekdayExists)
    (h : applySteps (ladder.map (Step.ofPoint all)) t = some u) :
    (∀ p ∈ ladder, p.holdsAt u = true) ∧
      ∀ p ∈ all, (∀ q ∈ ladder, p.Above q) → p.holdsAt t = true → p.holdsAt u = true := by
  induction ladder generalizing t with
  | nil =>
    obtain rfl : t = u := Option.some.inj h
    exact ⟨fun p hp => absurd hp List.not_mem_nil, fun _ _ _ hp => hp⟩
  | cons q rest ih =>
    rw [List.map_cons, applySteps] at h
    cases hmoved : (Step.ofPoint all q).moveTo? t with
    | none => simp [hmoved] at h
    | some moved =>
      rw [hmoved] at h
      have hmove : q.moveTo? t (Step.ofPoint all q).fenced = some moved := hmoved
      have hq := hweekdays q (List.mem_cons_self ..)
      have hqall := hall q (List.mem_cons_self ..)
      obtain ⟨habove, hrest⟩ := List.pairwise_cons.1 hladder
      obtain ⟨hholds, hkeep⟩ := ih (fun p hp => hall p (List.mem_cons_of_mem _ hp)) hrest
        (fun p hp => hweekdays p (List.mem_cons_of_mem _ hp)) h
      constructor
      · intro p hp
        rcases List.mem_cons.1 hp with rfl | hp
        · exact hkeep p hqall habove (Point.holdsAt_of_moveTo? hq hmove)
        · exact hholds p hp
      · intro p hp hbelow hpt
        exact hkeep p hp (fun r hr => hbelow r (List.mem_cons_of_mem _ hr))
          ((hbelow q (List.mem_cons_self ..)).holdsAt_of_moveTo? hq (fenced_ofPoint hp) hpt hmove)

/-- Bringing an instant back onto the weekdays changes the date alone. -/
theorem onDate_of_realign? (h : plan.realign? t = some u) : u = t.onDate u.date := by
  unfold realign? at h
  generalize plan.steps = steps at h
  induction steps generalizing t with
  | nil => exact Option.some.inj h ▸ rfl
  | cons step rest ih =>
    rw [List.foldlM_cons] at h
    cases hstep : step.content.realign? t with
    | none => simp [hstep] at h
    | some moved =>
      rw [hstep] at h
      have hmoved : moved = t.onDate moved.date := by
        cases hcontent : step.content with
        | point p => exact Point.onDate_of_realign? (by rwa [hcontent] at hstep)
        | span s =>
          rw [hcontent] at hstep
          exact Option.some.inj hstep ▸ rfl
      rw [ih h, hmoved]
      rfl

theorem realign?_eq_self (h : plan.holdsAt t = true) : plan.realign? t = some t := by
  unfold holdsAt at h
  unfold realign?
  generalize plan.steps = steps at h
  induction steps with
  | nil => rfl
  | cons step rest ih =>
    rw [List.all_cons, Bool.and_eq_true] at h
    have hstep : step.content.realign? t = some t := by
      cases hcontent : step.content with
      | point p =>
        have hholds := h.1
        rw [hcontent] at hholds
        exact Point.realign?_eq_self hholds
      | span s => rfl
    rw [List.foldlM_cons, hstep]
    exact ih h.2

/-- An instant lies on the plan of a term if it lies on each point of the term. -/
theorem holdsAt_forTerm : (forTerm term defaultTime).holdsAt t = true ↔
    ∀ p ∈ term.ladder, p.holdsAt t = true := by
  simp only [holdsAt, forTerm, List.all_append, List.all_map, Bool.and_eq_true, List.all_eq_true]
  exact ⟨fun h => h.2, fun h => ⟨fun _ _ => rfl, h⟩⟩

/-- The default time of day stands in only where no time of day is named. -/
theorem isTime_eq_false_of_defaultTime {time : TimeOfDay} {p : Point} (hp : p ∈ term.ladder)
    (h : (forTerm term defaultTime).defaultTime = some time) : p.isTime = false := by
  cases p with
  | time clock inverted =>
    have hhour : term.scope.has .hour = true :=
      Scope.has_sup.2 ⟨_, List.mem_map_of_mem (Term.mem_ladder.1 hp), rfl⟩
    simp [forTerm, hhour] at h
  | _ => rfl

@[simp] theorem date_setDefaultTime : (plan.setDefaultTime t).date = t.date := by
  unfold setDefaultTime
  split <;> rfl

/-- The default time of day leaves an instant on the points of the term. -/
theorem holdsAt_setDefaultTime (defaultTime : TimeOfDay) (h : ∀ p ∈ term.ladder, p.holdsAt t = true) :
    (forTerm term defaultTime).holdsAt ((forTerm term defaultTime).setDefaultTime t) = true := by
  rw [holdsAt_forTerm]
  intro p hp
  unfold setDefaultTime
  split
  · rename_i time htime
    rw [Point.holdsAt_congr (isTime_eq_false_of_defaultTime hp htime) (t.date_atTime time)]
    exact h p hp
  · exact h p hp

/-- A pass through the points of a valid term leads onto all of them. -/
theorem holdsAt_setDefaultTime_of_applySteps (hvalid : ValidParts term.parts)
    (hweekdays : ∀ p ∈ term.ladder, p.WeekdayExists) (defaultTime : TimeOfDay)
    (h : applySteps (term.ladder.map (Step.ofPoint term.points)) t = some u) :
    (forTerm term defaultTime).holdsAt ((forTerm term defaultTime).setDefaultTime u) = true :=
  holdsAt_setDefaultTime defaultTime (holdsAt_of_applySteps
    (fun _ => Term.mem_ladder_iff.1) hvalid.pairwise_above hweekdays h).1

/-- One pass through the plan of a valid term leads onto all points of the term. -/
theorem holdsAt_of_settle? (hvalid : ValidParts term.parts)
    (hweekdays : ∀ p ∈ term.ladder, p.WeekdayExists)
    (h : (forTerm term defaultTime).settle? (forTerm term defaultTime).steps t = some u) :
    (forTerm term defaultTime).holdsAt u = true := by
  obtain ⟨moved, hmoved, hrealign⟩ := settle?_eq_some_iff.1 h
  rw [show (forTerm term defaultTime).steps = term.spans.map (Step.ofSpan term.points) ++
    term.ladder.map (Step.ofPoint term.points) from rfl, applySteps_append] at hmoved
  obtain ⟨shifted, -, hmoved⟩ := Option.bind_eq_some_iff.1 hmoved
  have hset := holdsAt_setDefaultTime_of_applySteps hvalid hweekdays defaultTime hmoved
  rw [realign?_eq_self hset] at hrealign
  exact Option.some.inj hrealign ▸ hset

/-- A time of day stands behind all other points. -/
theorem exists_ladder_eq_append_time {ladder : List Point} {clock : TimeOfDay} {inverted : Bool}
    (hladder : ladder.Pairwise Point.Above) (h : .time clock inverted ∈ ladder) :
    ∃ dates, ladder = dates ++ [.time clock inverted] := by
  obtain ⟨dates, below, rfl⟩ := List.append_of_mem h
  have hbelow := (List.pairwise_cons.1 (List.pairwise_append.1 hladder).2.1).1
  cases below with
  | nil => exact ⟨dates, rfl⟩
  | cons q rest => exact absurd (hbelow q (List.mem_cons_self ..)) (by simp [Point.Above])

theorem isAt_of_applySteps {all : List Point} {clock : TimeOfDay} {inverted : Bool}
    (h : applySteps (steps ++ [Step.ofPoint all (.time clock inverted)]) t = some u) :
    u.IsAt clock := by
  rw [applySteps_append] at h
  obtain ⟨moved, -, h⟩ := Option.bind_eq_some_iff.1 h
  obtain rfl : moved.atTime clock = u := Option.some.inj h
  exact moved.isAt_atTime clock

/-- A pass that ends with a time of day leads to that time of day. -/
theorem isAt_of_settle? {all : List Point} {clock : TimeOfDay} {inverted : Bool}
    (hnone : plan.defaultTime = none)
    (h : plan.settle? (steps ++ [Step.ofPoint all (.time clock inverted)]) t = some u) :
    u.IsAt clock := by
  obtain ⟨moved, hmoved, hrealign⟩ := settle?_eq_some_iff.1 h
  rw [setDefaultTime, hnone] at hrealign
  rw [onDate_of_realign? hrealign]
  exact (isAt_of_applySteps hmoved).onDate

/-- A pass of a plan with a default time of day leads to that time of day. -/
theorem isAt_defaultTime_of_settle? {time : TimeOfDay} (htime : plan.defaultTime = some time)
    (h : plan.settle? steps t = some u) : u.IsAt time := by
  obtain ⟨moved, -, hrealign⟩ := settle?_eq_some_iff.1 h
  rw [setDefaultTime, htime] at hrealign
  rw [onDate_of_realign? hrealign]
  exact (moved.isAt_atTime time).onDate

end Plan

end TimePhrase
