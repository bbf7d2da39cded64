import TimePhrase.Proofs.Occurrence.Attempt

/-!
# An advance finds the next occurrence

Let a term name points only. An advance of a candidate tries the cycles of its points, from fine
to coarse. A finer point that has been tried in vain does not recur before the next coarser one
does, so the attempt that succeeds leads to the least later occurrence.
-/

namespace TimePhrase

open Plan

namespace Term

/-- The term is valid, and it names points with numbers that exist and nothing else. -/
structure NamesPoints (term : Term) : Prop where
  content : term.content ≠ []
  spans : term.spans = []
  valid : ValidParts term.parts
  range : term.PointsInRange

variable {term : Term} {defaultTime : TimeOfDay} {t u c a moved : DateTime}
  {front behind : List Point} {p : Point}

namespace NamesPoints

theorem steps_eq (h : term.NamesPoints) :
    (forTerm term defaultTime).steps = term.ladder.map (Step.ofPoint term.points) := by
  simp [forTerm, h.spans]

theorem points_ne_nil (h : term.NamesPoints) : term.points ≠ [] := by
  obtain ⟨c, hc⟩ := List.exists_mem_of_ne_nil _ h.content
  cases c with
  | point p => exact List.ne_nil_of_mem (mem_points.2 hc)
  | span s =>
    have hs : s ∈ term.spans := mem_spans.2 hc
    simp [h.spans] at hs

theorem ladder_ne_nil (h : term.NamesPoints) : term.ladder ≠ [] :=
  mt ladder_eq_nil_iff.1 h.points_ne_nil

theorem coherent (h : term.NamesPoints) : term.Coherent :=
  ⟨h.valid, fun _ hp => h.range.weekdayExists hp⟩

/-- A step may be advanced if its point has a cycle: no span has settled any unit. -/
theorem canAdvance_ofPoint (h : term.NamesPoints) (p : Point) :
    (forTerm term defaultTime).canAdvance (Step.ofPoint term.points p)
      = .ok p.cycle?.isSome := by
  have hpinned : (forTerm term defaultTime).pinned = .empty := by
    simp [forTerm, h.spans, Scope.sup]
  simp only [canAdvance, Step.ofPoint, Content.cycle?, ok_bind, hpinned, pure_eq_ok]
  cases p.cycle? <;> rfl

theorem isOn (h : term.OccursAt defaultTime t) : term.IsOn t := fun p hp =>
  h.points p (mem_ladder_iff.1 hp)

/-- A pass that ends with the finest point leads to an occurrence if it leads onto all points. -/
theorem occursAt_of_settle? (h : term.NamesPoints) (hladder : term.ladder = front ++ behind)
    (hbehind : behind ≠ [])
    (hsettle : (forTerm term defaultTime).settle? (behind.map (Step.ofPoint term.points)) a
      = some moved)
    (hholds : (forTerm term defaultTime).holdsAt moved = true) : term.OccursAt defaultTime moved := by
  obtain ⟨upper, last, rfl⟩ : ∃ upper last, behind = upper ++ [last] :=
    ⟨_, _, (List.dropLast_concat_getLast hbehind).symm⟩
  have hends : term.EndsWithTime ((upper ++ [last]).map (Step.ofPoint term.points)) := by
    intro clock inverted htime
    obtain ⟨dates, hdates⟩ := exists_ladder_eq_append_time h.valid.pairwise_above
      (mem_ladder.2 htime)
    rw [hdates, ← List.append_assoc] at hladder
    obtain ⟨-, hlast⟩ := List.append_inj' hladder rfl
    obtain rfl := List.singleton_inj.1 hlast
    exact ⟨upper.map (Step.ofPoint term.points), by simp⟩
  have hfits := fitsAt_of_settle? hends hsettle hholds
  have hclock := isAt_clock_of_settle? h.points_ne_nil (by simp [h.spans]) hends hsettle
  obtain ⟨m, hm, hrealign⟩ := settle?_eq_some_iff.1 hsettle
  rw [List.map_append, applySteps_append] at hm
  obtain ⟨shifted, -, hm⟩ := Option.bind_eq_some_iff.1 hm
  obtain ⟨reached, hreached, hm⟩ := Option.bind_eq_some_iff.1 hm
  obtain rfl : reached = m := Option.some.inj hm
  have hreached : last.moveTo? shifted (Step.ofPoint term.points last).fenced = some reached :=
    hreached
  have hlast : last ∈ term.points := by
    rw [← mem_ladder_iff, hladder]
    simp
  -- Without weekdays nothing happens to the date that the finest point leads to.
  have hdate (hkinds : ∀ p ∈ term.points, p.kind ≠ .weekday) : moved.date = reached.date := by
    rw [realign?, h.steps_eq, foldlM_realign?_eq_self fun p hp hkind =>
      absurd hkind (hkinds p (mem_ladder_iff.1 hp))] at hrealign
    rw [← Option.some.inj hrealign, date_setDefaultTime]
  refine ⟨fun p hp => hfits.points p (mem_points.1 hp), hclock,
    fun hkinds => ?_, fun hkinds => ?_⟩
  · rw [hdate fun p hp hkind => by rcases hkinds p hp with hp | hp <;> simp [hkind] at hp]
    have hkind := hkinds last hlast
    cases last with
    | month n looped => exact (Point.moveTo?_month.1 hreached).1.2.2
    | year y => exact (Point.moveTo?_year.1 hreached).1.2.2
    | time clock inverted => cases inverted <;> simp [Point.kind] at hkind
    | _ => simp [Point.kind] at hkind
  · rw [hdate fun p hp hkind => by simp [hkinds p hp] at hkind]
    have hkind := hkinds last hlast
    cases last with
    | year y => exact (Point.moveTo?_year.1 hreached).1.2.1
    | time clock inverted => cases inverted <;> simp [Point.kind] at hkind
    | _ => simp [Point.kind] at hkind

/-- The finest point of the term recurs between any two occurrences. -/
theorem recursBetween_last (h : term.NamesPoints) (hladder : term.ladder = front ++ [p])
    (ht : term.OccursAt defaultTime t) (hu : term.OccursAt defaultTime u) (hlt : t < u) :
    p.RecursBetween t.date u.date := by
  have hpairwise := h.valid.pairwise_above
  rw [hladder] at hpairwise
  have habove : ∀ q ∈ front, q.Above p := fun q hq =>
    (List.pairwise_append.1 hpairwise).2.2 q hq p (List.mem_singleton.2 rfl)
  have hmem : ∀ q ∈ term.points, q ∈ front ∨ q = p := by
    intro q hq
    rw [← mem_ladder_iff, hladder] at hq
    simpa using hq
  have hp : p ∈ term.ladder := by simp [hladder]
  have hlt := (ht.lt_iff hu).1 hlt
  have hday (hday : p.IsDay) : p.RecursBetween t.date u.date := by
    refine Classical.byContradiction fun hnot => ?_
    have := Point.toDays_eq_of_not_recursBetween hday (isOn ht p hp) (isOn hu p hp)
      (Nat.le_of_lt hlt) hnot
    omega
  have hyears := Date.year_le_of_toDays_le (Nat.le_of_lt hlt)
  cases p with
  | time => exact hlt
  | date | monthDay | weekday => exact hday trivial
  | month n looped =>
    have hkinds : ∀ q ∈ term.points, q.kind = .month ∨ q.kind = .year := by
      intro q hq
      rcases hmem q hq with hq | rfl
      · have hq := habove q hq
        cases q <;> simp only [Point.Above] at hq
        exact Or.inr rfl
      · exact Or.inl rfl
    have htday := ht.firstDay hkinds
    have huday := hu.firstDay hkinds
    have htmonth := Point.holdsAt_month.1 (isOn ht _ hp)
    have humonth := Point.holdsAt_month.1 (isOn hu _ hp)
    rcases Nat.lt_or_eq_of_le hyears with hlt | heq
    · exact hlt
    · have hindex := Date.monthIndex_eq_iff.2 ⟨heq, Int.ofNat.inj (htmonth.trans humonth.symm)⟩
      rw [Date.ext_of_monthIndex hindex (htday.trans huday.symm)] at hlt
      omega
  | year y =>
    have hkinds : ∀ q ∈ term.points, q.kind = .year := by
      intro q hq
      rcases hmem q hq with hq | rfl
      · have hq := habove q hq
        cases q <;> simp only [Point.Above] at hq
      · rfl
    have hyear := (Point.holdsAt_year.1 (isOn ht _ hp)).trans
      (Point.holdsAt_year.1 (isOn hu _ hp)).symm
    have hmonth := (ht.firstMonth hkinds).trans (hu.firstMonth hkinds).symm
    have hday := (ht.firstDay fun q hq => Or.inr (hkinds q hq)).trans
      (hu.firstDay fun q hq => Or.inr (hkinds q hq)).symm
    rw [Date.ext_of_monthIndex (Date.monthIndex_eq_iff.2 ⟨Int.ofNat.inj hyear, hmonth⟩) hday] at hlt
    omega

/-- Where the point next to `p` does not recur, no coarser one does. -/
theorem not_recursBetween {rest : List Point} (h : term.NamesPoints)
    (hladder : term.ladder = rest.reverse ++ p :: behind) (hc : term.OccursAt defaultTime c)
    (hu : term.OccursAt defaultTime u)
    (hnone : ¬ ∃ q ∈ rest.head?, q.RecursBetween c.date u.date) :
    ∀ q ∈ rest.reverse, ¬ q.RecursBetween c.date u.date := by
  cases rest with
  | nil => nofun
  | cons r rest =>
    have hr : ¬ r.RecursBetween c.date u.date := fun hr => hnone ⟨r, rfl, hr⟩
    have hmem : r ∈ term.ladder := by simp [hladder]
    have hpairwise := h.valid.pairwise_above
    rw [hladder, List.reverse_cons] at hpairwise
    intro q hq hrecurs
    rcases List.mem_append.1 (List.reverse_cons ▸ hq) with hq | hq
    · have habove := (List.pairwise_append.1 (List.pairwise_append.1 hpairwise).1).2.2 q hq r
        (List.mem_singleton.2 rfl)
      exact hr (habove.recursBetween (isOn hc r hmem) (isOn hu r hmem) hrecurs)
    · exact hr (List.mem_singleton.1 hq ▸ hrecurs)

/-- The attempt at a point succeeds unless a coarser point recurs before the next occurrence. -/
theorem exists_settle? (h : term.NamesPoints) (hladder : term.ladder = front ++ p :: behind)
    (hcycle : p.cycle?.isSome = true) (hc : term.OccursAt defaultTime c)
    (ha : p.inNextCycle? c = some a) (hu : term.OccursAt defaultTime u)
    (hau : a.date.toDays ≤ u.date.toDays)
    (hnot : ∀ q ∈ front, ¬ q.RecursBetween c.date u.date) :
    ∃ moved, (forTerm term defaultTime).settle?
        ((p :: behind).map (Step.ofPoint term.points)) a = some moved ∧
      c < moved ∧ (forTerm term defaultTime).holdsAt moved = true := by
  obtain ⟨moved, hsettle, hlt, hplan⟩ :=
    h.coherent.exists_settle? hladder hcycle (isOn hc) ha (isOn hu) hau hnot
  have hoccurs := h.occursAt_of_settle? hladder (by simp) hsettle hplan
  exact ⟨moved, hsettle, (hc.lt_iff hoccurs).2 hlt, hplan⟩

/-- An attempt that succeeds does not pass a later occurrence. -/
theorem le_of_settle? (h : term.NamesPoints) (hladder : term.ladder = front ++ p :: behind)
    (hcycle : p.cycle?.isSome = true) (hc : term.OccursAt defaultTime c)
    (ha : p.inNextCycle? c = some a) (hu : term.OccursAt defaultTime u)
    (hau : a.date.toDays ≤ u.date.toDays)
    (hsettle : (forTerm term defaultTime).settle?
      ((p :: behind).map (Step.ofPoint term.points)) a = some moved)
    (hholds : (forTerm term defaultTime).holdsAt moved = true) : moved ≤ u := by
  have hmoved := h.occursAt_of_settle? hladder (by simp) hsettle hholds
  rw [hmoved.le_iff hu]
  exact h.coherent.toDays_le_of_settle? hladder hcycle (isOn hc) ha (isOn hu) hau hsettle

/-- An attempt in vain leaves the next coarser point to recur before a later occurrence. -/
theorem recursBetween_of_vain {rest : List Point} (h : term.NamesPoints)
    (hladder : term.ladder = rest.reverse ++ p :: behind) (hcycle : p.cycle?.isSome = true)
    (hc : term.OccursAt defaultTime c) (ha : p.inNextCycle? c = some a)
    (hau : ∀ u, term.OccursAt defaultTime u → c < u → a.date.toDays ≤ u.date.toDays)
    (hvain : ∀ moved, (forTerm term defaultTime).settle?
      ((p :: behind).map (Step.ofPoint term.points)) a = some moved →
        ¬ (c < moved ∧ (forTerm term defaultTime).holdsAt moved = true)) :
    ∀ u, term.OccursAt defaultTime u → c < u →
      ∃ q ∈ rest.head?, q.RecursBetween c.date u.date := by
  intro u hu hcu
  refine Classical.byContradiction fun hnone => ?_
  obtain ⟨moved, hmoved, haccept⟩ := h.exists_settle? hladder hcycle hc ha hu
    (hau u hu hcu) (h.not_recursBetween hladder hc hu hnone)
  exact hvain moved hmoved haccept

/-- What an advance of a candidate finds: a later occurrence, the least one, if there is any. -/
def IsNextAfter (term : Term) (defaultTime : TimeOfDay) (c : DateTime) (next : Option DateTime) :
    Prop :=
  (∀ m ∈ next, term.OccursAt defaultTime m ∧ c < m) ∧
    ∀ u, term.OccursAt defaultTime u → c < u → ∃ m ∈ next, m ≤ u

/-- The attempts from a point on find the least later occurrence, provided that this point recurs
before every later occurrence. -/
theorem advanceOne_spec {earlier : List Point} (h : term.NamesPoints)
    (hladder : term.ladder = earlier.reverse ++ behind) (hc : term.OccursAt defaultTime c)
    (hrecurs : ∀ u, term.OccursAt defaultTime u → c < u →
      ∃ p ∈ earlier.head?, p.RecursBetween c.date u.date) :
    ∃ next, (forTerm term defaultTime).advanceOne c (earlier.map (Step.ofPoint term.points))
        (behind.map (Step.ofPoint term.points)) = .ok next ∧
      IsNextAfter term defaultTime c next := by
  induction earlier generalizing behind with
  | nil =>
    refine ⟨none, rfl, nofun, fun u hu hcu => ?_⟩
    obtain ⟨p, hp, -⟩ := hrecurs u hu hcu
    exact absurd hp nofun
  | cons p rest ih =>
    have hrecurs : ∀ u, term.OccursAt defaultTime u → c < u → p.RecursBetween c.date u.date := by
      intro u hu hcu
      obtain ⟨q, hq, hrecur⟩ := hrecurs u hu hcu
      exact Option.some.inj hq ▸ hrecur
    have hsplit : term.ladder = rest.reverse ++ p :: behind := by simp [hladder]
    rw [List.map_cons, advanceOne, h.canAdvance_ofPoint, ok_bind]
    cases hcycle : p.cycle?.isSome with
    | false =>
      simp only [Bool.not_false, if_true]
      refine ih hsplit fun u hu hcu => ?_
      exact absurd (hrecurs u hu hcu)
        (Point.not_recursBetween_of_cycle? (Option.isNone_iff_eq_none.1 (by simpa using hcycle)))
    | true =>
      have hadvance : (Step.ofPoint term.points p).content.advance c = _ := Point.advance_eq hcycle
      simp only [Bool.not_true, Bool.false_eq_true, if_false, hadvance]
      have hp : p ∈ term.ladder := by simp [hsplit]
      cases ha : p.inNextCycle? c with
      | none =>
        refine ⟨none, rfl, nofun, fun u hu hcu => ?_⟩
        obtain ⟨a, ha', -⟩ := Point.exists_inNextCycle?_le (isOn hc p hp) (isOn hu p hp)
          (hrecurs u hu hcu)
        simp [ha] at ha'
      | some a =>
        have hau : ∀ u, term.OccursAt defaultTime u → c < u → a.date.toDays ≤ u.date.toDays := by
          intro u hu hcu
          obtain ⟨a', ha', hle⟩ := Point.exists_inNextCycle?_le (isOn hc p hp) (isOn hu p hp)
            (hrecurs u hu hcu)
          rwa [Option.some.inj (ha.symm.trans ha')]
        have hafter : stepsAfterAdvance (Step.ofPoint term.points p)
            (behind.map (Step.ofPoint term.points)) =
            (p :: behind).map (Step.ofPoint term.points) := rfl
        have hcoarser := h.recursBetween_of_vain hsplit hcycle hc ha hau
        simp only [hafter]
        cases hsettle : (forTerm term defaultTime).settle?
            ((p :: behind).map (Step.ofPoint term.points)) a with
        | none => exact ih hsplit (hcoarser fun moved hmoved =>
            absurd (hsettle.symm.trans hmoved) nofun)
        | some moved =>
          simp only
          split
          · rename_i haccept
            obtain ⟨hlater, hholds⟩ := Bool.and_eq_true _ _ ▸ haccept
            refine ⟨some moved, rfl, ?_, fun u hu hcu => ⟨moved, rfl, ?_⟩⟩
            · rintro m ⟨⟩
              exact ⟨h.occursAt_of_settle? hsplit (by simp) hsettle hholds,
                of_decide_eq_true hlater⟩
            · exact h.le_of_settle? hsplit hcycle hc ha hu (hau u hu hcu) hsettle hholds
          · rename_i hreject
            refine ih hsplit (hcoarser fun moved' hmoved' haccept => hreject ?_)
            obtain rfl : moved = moved' := Option.some.inj (hsettle.symm.trans hmoved')
            simpa using haccept

/-- An advance of a candidate finds the least later occurrence. -/
theorem advance_spec (h : term.NamesPoints) (hc : term.OccursAt defaultTime c) :
    ∃ next, (forTerm term defaultTime).advance c = .ok next ∧
      IsNextAfter term defaultTime c next := by
  rw [advance, h.steps_eq, ← List.map_reverse]
  have hladder : term.ladder = term.ladder.reverse.reverse ++ [] := by simp
  refine h.advanceOne_spec hladder hc fun u hu hcu => ?_
  obtain ⟨upper, last, hladder⟩ : ∃ upper last, term.ladder = upper ++ [last] :=
    ⟨_, _, (List.dropLast_concat_getLast h.ladder_ne_nil).symm⟩
  exact ⟨last, by simp [hladder], h.recursBetween_last hladder hc hu hcu⟩

end NamesPoints

end Term

end TimePhrase
