import TimePhrase.Proofs.Occurrence.Search

/-!
# What an occurrence satisfies

An occurrence of a valid expression lies within the bounds, on all points of the expression and
at the time of day that the expression asks for. The first candidate of a search does, and every
advance preserves it.
-/

namespace TimePhrase

namespace Term

variable {term : Term} {defaultTime : TimeOfDay} {t u : DateTime}

/-- The instant lies on all points of the term, at the time of day that the term names, or at
the default one if the term names a day without a time of day. -/
structure FitsAt (term : Term) (defaultTime : TimeOfDay) (t : DateTime) : Prop where
  points : ∀ p, .point p ∈ term.content → p.holdsAt t = true
  named : ∀ clock inverted, .point (.time clock inverted) ∈ term.content → t.IsAt clock
  unnamed : (∃ p, .point p ∈ term.content ∧ ∃ u, u.isDayOrCoarser = true ∧ p.scope.has u = true) →
    term.scope.has .hour = false → term.scope.has .minute = false → t.IsAt defaultTime

theorem mem_all (u : TimeUnit) : u ∈ TimeUnit.all := by cases u <;> decide

theorem defaultTime_forTerm
    (hday : ∃ p, .point p ∈ term.content ∧ ∃ u, u.isDayOrCoarser = true ∧ p.scope.has u = true)
    (hhour : term.scope.has .hour = false) (hminute : term.scope.has .minute = false) :
    (Plan.forTerm term defaultTime).defaultTime = some defaultTime := by
  obtain ⟨p, hp, u, hcoarse, hscope⟩ := hday
  have hany : (term.points.any fun p =>
      TimeUnit.all.any fun u => u.isDayOrCoarser && p.scope.has u) = true :=
    List.any_eq_true.2 ⟨p, mem_points.2 hp,
      List.any_eq_true.2 ⟨u, mem_all u, by rw [hcoarse, hscope]; rfl⟩⟩
  simp [Plan.forTerm, hany, hhour, hminute]

theorem defaultTime_forTerm_eq_none {clock : TimeOfDay} {inverted : Bool}
    (h : .point (.time clock inverted) ∈ term.content) :
    (Plan.forTerm term defaultTime).defaultTime = none := by
  cases hdefault : (Plan.forTerm term defaultTime).defaultTime with
  | none => rfl
  | some time => exact absurd (Plan.isTime_eq_false_of_defaultTime (mem_ladder.2 h) hdefault) nofun

/-- The steps end with the time of day of the term, if it names one. -/
def EndsWithTime (term : Term) (steps : List Step) : Prop :=
  ∀ clock inverted, .point (.time clock inverted) ∈ term.content →
    ∃ front, steps = front ++ [Step.ofPoint term.points (.time clock inverted)]

/-- A pass that ends with the time of day leads to the right time of day. -/
theorem fitsAt_of_settle? {steps : List Step} (hlast : term.EndsWithTime steps)
    (hsettle : (Plan.forTerm term defaultTime).settle? steps t = some u)
    (hholds : (Plan.forTerm term defaultTime).holdsAt u = true) : term.FitsAt defaultTime u where
  points p hp := Plan.holdsAt_forTerm.1 hholds p (mem_ladder.2 hp)
  named clock inverted htime := by
    obtain ⟨front, rfl⟩ := hlast clock inverted htime
    exact Plan.isAt_of_settle? (defaultTime_forTerm_eq_none htime) hsettle
  unnamed hday hhour hminute :=
    Plan.isAt_defaultTime_of_settle? (defaultTime_forTerm hday hhour hminute) hsettle

theorem endsWithTime_forTerm (defaultTime : TimeOfDay) (hvalid : ValidParts term.parts) :
    term.EndsWithTime (Plan.forTerm term defaultTime).steps := by
  intro clock inverted htime
  obtain ⟨dates, hdates⟩ := Plan.exists_ladder_eq_append_time hvalid.pairwise_above
    (mem_ladder.2 htime)
  exact ⟨term.spans.map (Step.ofSpan term.points) ++ dates.map (Step.ofPoint term.points),
    by simp [Plan.forTerm, hdates]⟩

/-- The steps that follow an advance still end with the time of day. -/
theorem EndsWithTime.stepsAfterAdvance {before behind : List Step} {step : Step}
    (h : term.EndsWithTime (before ++ step :: behind)) :
    term.EndsWithTime (Plan.stepsAfterAdvance step behind) := by
  intro clock inverted htime
  obtain ⟨front, hfront⟩ := h clock inverted htime
  rcases List.eq_nil_or_concat behind with rfl | ⟨rest, last, rfl⟩
  · obtain ⟨-, hstep⟩ := List.append_inj' hfront rfl
    obtain rfl := List.singleton_inj.1 hstep
    exact ⟨[], rfl⟩
  · rw [List.concat_eq_append] at hfront ⊢
    rw [← List.cons_append, ← List.append_assoc] at hfront
    obtain ⟨-, hlast⟩ := List.append_inj' hfront rfl
    rw [hlast]
    unfold Plan.stepsAfterAdvance
    split
    · exact ⟨rest, rfl⟩
    · exact ⟨step :: rest, rfl⟩

/-- Every candidate of a search fits the term. -/
theorem fitsAt_of_advance (hvalid : ValidParts term.parts)
    (h : (Plan.forTerm term defaultTime).advance t = .ok (some u)) :
    term.FitsAt defaultTime u := by
  obtain ⟨before, step, behind, hadvanced⟩ := Plan.advanced_of_advance h
  obtain ⟨advanced, -, hsettle, -, hholds⟩ := hadvanced.accepts
  have hlast := endsWithTime_forTerm defaultTime hvalid
  rw [hadvanced.steps] at hlast
  exact fitsAt_of_settle? hlast.stepsAfterAdvance hsettle hholds

theorem fitsAt_of_searchBy {since : DateTime} {strict : Bool} {bounds : Bounds} {r : DateTime}
    (hvalid : ValidParts term.parts) (hrange : term.PointsInRange)
    (h : term.searchBy (.forTerm term defaultTime) since strict bounds = .ok r) :
    term.FitsAt defaultTime r ∧ (Threshold.of since strict bounds.lower).admits r = true ∧
      ∀ upper ∈ bounds.upper, r < upper := by
  obtain ⟨first, hfirst, hsearch, hupper⟩ := searchBy_eq_ok_iff.1 h
  have hfits : term.FitsAt defaultTime first := fitsAt_of_settle?
    (endsWithTime_forTerm defaultTime hvalid) hfirst (Plan.holdsAt_of_settle? hvalid
      (fun _ hp => hrange.weekdayExists hp) hfirst)
  obtain ⟨hresult, hadmits⟩ := of_advanceUntil hfits
    (fun _ _ _ _ hadvance => fitsAt_of_advance hvalid hadvance) hsearch
  exact ⟨hresult, hadmits, hupper⟩

/-- An occurrence of a valid expression lies on the wanted side of `since`, within the bounds,
and fits the expression. -/
theorem next_sound {since : DateTime} {strict : Bool} {bounds : Option Bounds} {r : DateTime}
    (hvalid : checkParts term.parts = .ok ()) (hrange : term.PointsInRange)
    (h : term.next since strict defaultTime bounds = .ok r) :
    ∃ limits, term.boundsFor since defaultTime bounds = .ok limits ∧
      since ≤ r ∧ (strict = true → since < r) ∧
      (∀ lower ∈ limits.lower, lower ≤ r) ∧ (∀ upper ∈ limits.upper, r < upper) ∧
      term.FitsAt defaultTime r := by
  obtain ⟨-, limits, hlimits, hsearch⟩ := next_eq_ok_iff.1 h
  obtain ⟨hfits, hadmits, hupper⟩ :=
    fitsAt_of_searchBy (checkParts_eq_ok_iff.1 hvalid) hrange hsearch
  obtain ⟨hsince, hstrict, hlower⟩ := Threshold.admits_of_iff.1 hadmits
  exact ⟨limits, hlimits, hsince, hstrict, hlower, hupper, hfits⟩

/-- Mondays at a time of day until May. -/
def mondaysUntilMay (clock : TimeOfDay) : Term := ⟨[.content (.point (.weekday 1 true)),
  .content (.point (.time clock false)), .limiter .upper (some [.content (.point (.month 5 false))])]⟩

/-- On the first Wednesday of 2024, the next Monday evening before May is that of 8 January. -/
theorem next_sound_mondaysUntilMay :
    let since : DateTime := ⟨⟨2024, 1, 3, by decide⟩, 9, 30, 0, 0⟩
    let found : DateTime := ⟨⟨2024, 1, 8, by decide⟩, 17, 0, 0, 0⟩
    ∃ limits, (mondaysUntilMay ⟨17, 0⟩).boundsFor since .midnight none = .ok limits ∧
      since ≤ found ∧ (true = true → since < found) ∧
      (∀ lower ∈ limits.lower, lower ≤ found) ∧ (∀ upper ∈ limits.upper, found < upper) ∧
      (mondaysUntilMay ⟨17, 0⟩).FitsAt .midnight found :=
  next_sound (by decide +kernel) (by decide) (by decide +kernel)

end Term

end TimePhrase
