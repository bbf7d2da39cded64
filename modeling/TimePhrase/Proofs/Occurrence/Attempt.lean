import TimePhrase.Proofs.Occurrence.Points

/-!
# What the attempt at a point leads to

Let two instants lie on all points of a valid term, and let a point of the term recur from the
one to the other. The attempt to advance the earlier instant by that point does not pass the later
one, and it succeeds unless a coarser point recurs between them as well. Spans play no part in
this: what follows the advance of a point is a pass through points.
-/

namespace TimePhrase

open Plan

namespace Term

/-- The term is valid, and the weekday that it may name exists. -/
structure Coherent (term : Term) : Prop where
  valid : ValidParts term.parts
  weekdays : ∀ p ∈ term.ladder, p.WeekdayExists

/-- The instant lies on all points of the term. -/
def IsOn (term : Term) (t : DateTime) : Prop := ∀ p ∈ term.ladder, p.holdsAt t = true

namespace Coherent

variable {term : Term} {defaultTime : TimeOfDay} {c u a moved : DateTime}
  {front behind : List Point} {p : Point}

/-- What holds of the steps from `p` on when the plan is taken anew behind an advance of `p`. -/
theorem applySteps_inNextCycle? (h : term.Coherent) (hladder : term.ladder = front ++ p :: behind)
    (hcycle : p.cycle?.isSome = true) (hc : term.IsOn c) (ha : p.inNextCycle? c = some a)
    (hu : term.IsOn u) (hau : a.date.toDays ≤ u.date.toDays) :
    ∃ m, applySteps ((p :: behind).map (Step.ofPoint term.points)) a = some m ∧
      c.date.toDays < m.date.toDays ∧ m.date.toDays ≤ u.date.toDays ∧
      ∀ q ∈ p :: behind, q.holdsAt m = true := by
  have hmem : ∀ q ∈ p :: behind, q ∈ term.ladder := fun q hq => by
    rw [hladder]
    exact List.mem_append_right _ hq
  have hpairwise := h.valid.pairwise_above
  rw [hladder] at hpairwise
  have hsuffix := (List.pairwise_append.1 hpairwise).2.1
  have hp := hmem p (List.mem_cons_self ..)
  obtain ⟨m, hm, hmu⟩ := exists_applySteps_le term.points hsuffix
    (fun q hq => hu q (hmem q hq)) hau (by
      rintro q hq hkind -
      obtain rfl : p = q := Option.some.inj hq
      obtain ⟨n, looped, rfl⟩ := Point.eq_weekday_of_kind hkind
      exact Or.inr (Point.holdsAt_of_moveTo? (h.weekdays _ hp)
        (@Point.moveTo?_inNextCycle? _ _ false _ (hc _ hp) rfl ha)))
  have hma := toDays_le_of_applySteps (mem_ladder_iff.1 hp) (hc p hp) ha
    (List.pairwise_cons.1 hsuffix).1
    (fun q hq => h.weekdays q (hmem q (List.mem_cons_of_mem _ hq))) hm
  have hca := (Point.recursBetween_inNextCycle? hcycle ha).toDays_lt
  exact ⟨m, hm, by omega, hmu, (holdsAt_of_applySteps
    (fun q hq => mem_ladder_iff.1 (hmem q hq)) hsuffix
    (fun q hq => h.weekdays q (hmem q hq)) hm).1⟩

/-- The attempt at a point succeeds unless a coarser point recurs as well. -/
theorem exists_settle? (h : term.Coherent) (hladder : term.ladder = front ++ p :: behind)
    (hcycle : p.cycle?.isSome = true) (hc : term.IsOn c) (ha : p.inNextCycle? c = some a)
    (hu : term.IsOn u) (hau : a.date.toDays ≤ u.date.toDays)
    (hnot : ∀ q ∈ front, ¬ q.RecursBetween c.date u.date) :
    ∃ moved, (forTerm term defaultTime).settle?
        ((p :: behind).map (Step.ofPoint term.points)) a = some moved ∧
      c.date.toDays < moved.date.toDays ∧ (forTerm term defaultTime).holdsAt moved = true := by
  obtain ⟨m, hm, hcm, hmu, hholds⟩ := h.applySteps_inNextCycle? hladder hcycle hc ha hu hau
  have hpairwise := h.valid.pairwise_above
  rw [hladder] at hpairwise
  have hladderHolds : ∀ q ∈ term.ladder, q.holdsAt m = true := by
    intro q hq
    rw [hladder] at hq
    rcases List.mem_append.1 hq with hfront | hbehind
    · have habove := (List.pairwise_append.1 hpairwise).2.2 q hfront p (List.mem_cons_self ..)
      have htime : q.isTime = false := by cases q <;> simp_all [Point.Above, Point.isTime]
      have hq : q ∈ term.ladder := hladder ▸ hq
      exact Point.holdsAt_between htime (hc q hq) (hu q hq) (Nat.le_of_lt hcm) hmu (hnot q hfront)
    · exact hholds q hbehind
  have hplan := holdsAt_setDefaultTime defaultTime hladderHolds
  refine ⟨_, settle?_eq_some_iff.2 ⟨m, hm, realign?_eq_self hplan⟩, ?_, hplan⟩
  rwa [date_setDefaultTime]

/-- The attempt at a point does not pass a later instant on all points. -/
theorem toDays_le_of_settle? (h : term.Coherent) (hladder : term.ladder = front ++ p :: behind)
    (hcycle : p.cycle?.isSome = true) (hc : term.IsOn c) (ha : p.inNextCycle? c = some a)
    (hu : term.IsOn u) (hau : a.date.toDays ≤ u.date.toDays)
    (hsettle : (forTerm term defaultTime).settle?
      ((p :: behind).map (Step.ofPoint term.points)) a = some moved) :
    moved.date.toDays ≤ u.date.toDays := by
  obtain ⟨m, hm, hcm, hmu, hbehind⟩ := h.applySteps_inNextCycle? hladder hcycle hc ha hu hau
  obtain ⟨reached, hreached, hrealign⟩ := settle?_eq_some_iff.1 hsettle
  obtain rfl : m = reached := Option.some.inj (hm.symm.trans hreached)
  rw [realign?_forTerm] at hrealign
  by_cases hweekday : ∀ q ∈ term.ladder, q.kind = .weekday → q.holdsAt
      ((forTerm term defaultTime).setDefaultTime m) = true
  · rw [foldlM_realign?_eq_self hweekday] at hrealign
    rwa [← Option.some.inj hrealign, date_setDefaultTime]
  · -- Only the time of day is tried below a weekday, and it moves by one day.
    simp only [Classical.not_forall] at hweekday
    obtain ⟨q, hq, hkind, hnot⟩ := hweekday
    obtain ⟨n, looped, rfl⟩ := Point.eq_weekday_of_kind hkind
    rw [Point.holdsAt_congr rfl date_setDefaultTime] at hnot
    have hfront : .weekday n looped ∈ front := by
      have hmem := hq
      rw [hladder] at hmem
      exact (List.mem_append.1 hmem).resolve_right fun hmem => hnot (hbehind _ hmem)
    have hpairwise := h.valid.pairwise_above
    rw [hladder] at hpairwise
    obtain ⟨-, hsuffix, hcross⟩ := List.pairwise_append.1 hpairwise
    have hbelow : ∀ r ∈ p :: behind, r.isTime = true := fun r hr =>
      Point.isTime_of_above (p := .weekday n looped) trivial (hcross _ hfront r hr)
    have htime := hbelow p (List.mem_cons_self ..)
    have hdate := date_of_applySteps hbelow hm
    have hdays : (a.date.toDays : Int) = c.date.toDays + 1 := by
      cases p with
      | time clock inverted => exact (DateTime.addDays?_eq_some_iff.1 ha).1
      | _ => cases htime
    have hweek := toDays_le_of_foldlM_realign? h.valid.pairwise_above h.weekdays hrealign
    rw [date_setDefaultTime, hdate] at hweek
    have hcweekday := Point.holdsAt_weekday.1 (hc _ hq)
    have huweekday := Point.holdsAt_weekday.1 (hu _ hq)
    unfold Date.weekday at *
    omega

end Coherent

end Term

end TimePhrase
