import Mathlib.Data.List.Basic
import TimePhrase.Proofs.Occurrence.Attempt
import TimePhrase.Proofs.Occurrence.Order
import TimePhrase.Proofs.Occurrence.Skip

/-!
# Terms that keep the rhythm of a point

The coarsest point of a term recurs by a unit of its own. Either the spans of the term leave this
unit alone, or they repeat by one such unit at a time. A candidate that precedes the first
candidate of another search then lies in an earlier cycle of that point, and so its advance does
not pass over it.
-/

namespace TimePhrase

open Plan

namespace Term

/-- The coarsest point of the term recurs by the unit, and no span settles the time of day. -/
structure RecursBy (term : Term) (top : Point) (unit : TimeUnit) : Prop where
  coarsest : term.ladder.head? = some top
  cycle : top.cycle? = some unit
  leavesTime : ∀ s ∈ term.spans, s.LeavesTime

/-- No span settles the unit by which the coarsest point recurs, or the last one repeats by it: one
such unit at a time. -/
structure KeepsRhythm (term : Term) (top : Point) (unit : TimeUnit) : Prop
    extends RecursBy term top unit where
  spans : (∀ s ∈ term.spans, s.scope.has unit = false) ∨
    term.spans.getLast? = some (.counts [(unit, 1)] true)

variable {term : Term} {defaultTime : TimeOfDay} {top p : Point} {unit : TimeUnit}
  {front behind below : List Point} {start t u c d m x : DateTime}

section Passes

/-- A pass takes the spans first and settles on the points from there. -/
theorem settle?_steps_eq_some_iff :
    (forTerm term defaultTime).settle? (forTerm term defaultTime).steps start = some d ↔
      ∃ x, applySteps (term.spans.map (Step.ofSpan term.points)) start = some x ∧
        (forTerm term defaultTime).settle? (term.ladder.map (Step.ofPoint term.points)) x
          = some d := settle?_append_eq_some_iff

/-- On the points of a coherent term nothing is left to be brought back onto a weekday. -/
theorem Coherent.of_settle?_ladder (h : term.Coherent)
    (hsettle : (forTerm term defaultTime).settle? (term.ladder.map (Step.ofPoint term.points)) x
      = some d) :
    term.IsOn d ∧ ∃ y, applySteps (term.ladder.map (Step.ofPoint term.points)) x = some y ∧
      d.date = y.date := by
  obtain ⟨y, hy, hrealign⟩ := settle?_eq_some_iff.1 hsettle
  have hholds := holdsAt_setDefaultTime_of_applySteps h.valid h.weekdays defaultTime hy
  rw [realign?_eq_self hholds] at hrealign
  obtain rfl := Option.some.inj hrealign
  exact ⟨holdsAt_forTerm.1 hholds, y, hy, date_setDefaultTime⟩

/-- A pass through the points does not leave the cycle of the coarsest one. -/
theorem Coherent.cycleIndex_of_settle?_ladder (h : term.Coherent)
    (hladder : term.ladder = top :: below)
    (hsettle : (forTerm term defaultTime).settle? (term.ladder.map (Step.ofPoint term.points)) x
      = some d) : top.cycleIndex d.date = top.cycleIndex x.date := by
  obtain ⟨-, y, hy, hdate⟩ := h.of_settle?_ladder hsettle
  have hpairwise := h.valid.pairwise_above
  have hweekdays := h.weekdays
  have htop : top ∈ term.points := mem_ladder_iff.1 (by simp [hladder])
  rw [hladder] at hy hpairwise hweekdays
  rw [hdate]
  exact cycleIndex_of_applySteps hpairwise htop hweekdays
    (kind_ne_weekday_of_fenced h.valid hladder) hy

/-- A pass through the points does not pass an instant on all of them in the same cycle of the
coarsest one, or in a later cycle. -/
theorem Coherent.toDays_le_of_settle?_ladder (h : term.Coherent)
    (hladder : term.ladder = top :: below) (hu : term.IsOn u)
    (hle : top.cycleIndex x.date ≤ top.cycleIndex u.date)
    (hsettle : (forTerm term defaultTime).settle? (term.ladder.map (Step.ofPoint term.points)) x
      = some d) : d.date.toDays ≤ u.date.toDays := by
  obtain ⟨-, y, hy, hdate⟩ := h.of_settle?_ladder hsettle
  have hpairwise := h.valid.pairwise_above
  unfold IsOn at hu
  rw [hladder] at hy hpairwise hu
  obtain ⟨y', hy', hle⟩ := exists_applySteps_le_of_cycleIndex_le term.points hpairwise hu hle
    (kind_ne_weekday_of_fenced h.valid hladder)
  obtain rfl : y = y' := Option.some.inj (hy.symm.trans hy')
  rwa [hdate]

/-- A pass through the points succeeds where an instant on all of them lies in the same cycle of the
coarsest one, or in a later cycle. -/
theorem Coherent.exists_settle?_ladder (h : term.Coherent) (hladder : term.ladder = top :: below)
    (hu : term.IsOn u) (hle : top.cycleIndex x.date ≤ top.cycleIndex u.date) :
    ∃ d, (forTerm term defaultTime).settle? (term.ladder.map (Step.ofPoint term.points)) x
        = some d ∧ (forTerm term defaultTime).holdsAt d = true := by
  have hpairwise := h.valid.pairwise_above
  unfold IsOn at hu
  rw [hladder] at hpairwise hu
  obtain ⟨y, hy, -⟩ := exists_applySteps_le_of_cycleIndex_le term.points hpairwise hu hle
    (kind_ne_weekday_of_fenced h.valid hladder)
  rw [← hladder] at hy
  have hholds := holdsAt_setDefaultTime_of_applySteps h.valid h.weekdays defaultTime hy
  exact ⟨_, settle?_eq_some_iff.2 ⟨y, hy, realign?_eq_self hholds⟩, hholds⟩

/-- A candidate on all points that precedes a first candidate lies in an earlier cycle of the
coarsest point. -/
theorem Coherent.recursBetween_top (h : term.Coherent) (hladder : term.ladder = top :: below)
    (hc : term.IsOn c) (hcd : c.date.toDays < d.date.toDays)
    (hsettle : (forTerm term defaultTime).settle? (term.ladder.map (Step.ofPoint term.points)) x
      = some d) : top.RecursBetween c.date d.date := by
  refine Nat.lt_of_not_le fun hle => ?_
  rw [h.cycleIndex_of_settle?_ladder hladder hsettle] at hle
  have hdc := h.toDays_le_of_settle?_ladder hladder hc hle hsettle
  omega

end Passes

section Candidates

/-- Every candidate of a valid term lies at the time of day of the term. -/
theorem isAt_clock_of_reached (hvalid : ValidParts term.parts) (hpoints : term.points ≠ [])
    (hspans : ∀ s ∈ term.spans, s.LeavesTime)
    (h : (forTerm term defaultTime).Reached t) : t.IsAt (term.clock defaultTime) := by
  have hends := endsWithTime_forTerm defaultTime hvalid
  cases h with
  | first hstart => exact isAt_clock_of_settle? hpoints hspans hends hstart
  | next hc hadvance =>
    obtain ⟨before, step, behind, hadvanced⟩ := advanced_of_advance hadvance
    obtain ⟨a, -, hsettle, -⟩ := hadvanced.accepts
    rw [hadvanced.steps] at hends
    exact isAt_clock_of_settle? hpoints hspans hends.stepsAfterAdvance hsettle

theorem Coherent.isOn_of_reached (h : term.Coherent)
    (hreached : (forTerm term defaultTime).Reached t) : term.IsOn t := by
  cases hreached with
  | first hstart => exact holdsAt_forTerm.1 (holdsAt_of_settle? h.valid h.weekdays hstart)
  | next hc hadvance =>
    obtain ⟨before, step, behind, hadvanced⟩ := advanced_of_advance hadvance
    obtain ⟨a, -, -, -, hholds⟩ := hadvanced.accepts
    exact holdsAt_forTerm.1 hholds

/-- Without the weekday that the term names there is nothing to advance to. -/
theorem coherent_of_advance (hvalid : ValidParts term.parts)
    (h : (forTerm term defaultTime).advance c = .ok (some m)) : term.Coherent := by
  obtain ⟨before, step, behind, hadvanced⟩ := advanced_of_advance h
  obtain ⟨a, -, -, -, hholds⟩ := hadvanced.accepts
  refine ⟨hvalid, fun p hp => ?_⟩
  have hon := holdsAt_forTerm.1 hholds p hp
  cases p with
  | weekday n looped =>
    have hbounds := m.date.weekday_bounds
    have hweekday := Point.holdsAt_weekday.1 hon
    exact ⟨by omega, by omega⟩
  | _ => trivial

end Candidates

section Steps

/-- A point may be advanced if no span settles the unit by which it recurs. -/
theorem canAdvance_ofPoint (hcycle : p.cycle? = some unit)
    (hspans : ∀ s ∈ term.spans, s.scope.has unit = false) :
    (forTerm term defaultTime).canAdvance (Step.ofPoint term.points p) = .ok true := by
  have hpinned : (forTerm term defaultTime).pinned.has unit = false := by
    rw [← Bool.not_eq_true, forTerm, Scope.has_sup]
    rintro ⟨scope, hscope, hhas⟩
    obtain ⟨s, hs, rfl⟩ := List.mem_map.1 hscope
    cases (hspans s hs).symm.trans hhas
  simp [canAdvance, Step.ofPoint, Content.cycle?, hcycle, hpinned]

/-- A point is advanced by its cycle. -/
theorem inNextCycle?_of_advance (hable : (forTerm term defaultTime).canAdvance
      (Step.ofPoint term.points p) = .ok true)
    (h : (Step.ofPoint term.points p).content.advance c = .ok x) :
    p.cycle?.isSome = true ∧ p.inNextCycle? c = some x := by
  have hcycle : p.cycle?.isSome = true := by
    cases hcycle : p.cycle? with
    | none => simp [canAdvance, Step.ofPoint, Content.cycle?, hcycle] at hable
    | some unit => rfl
  have hadvance : p.advance c = .ok x := h
  rw [Point.advance_eq hcycle] at hadvance
  cases hnext : p.inNextCycle? c with
  | none => simp [hnext] at hadvance
  | some next =>
    rw [hnext] at hadvance
    exact ⟨hcycle, congrArg some (Except.ok.inj hadvance)⟩

end Steps

namespace Coherent

/-- Where the coarsest point recurs before a later instant on all points, the attempt at a point
does not pass that instant. -/
theorem toDays_le_of_accepts (h : term.Coherent) (hladder : term.ladder = top :: below)
    (hc : term.IsOn c) (hd : term.IsOn d) (htop : top.RecursBetween c.date d.date)
    (hpoint : term.ladder = front ++ p :: behind)
    (hable : (forTerm term defaultTime).canAdvance (Step.ofPoint term.points p) = .ok true)
    (haccepts : (forTerm term defaultTime).Accepts c (Step.ofPoint term.points p)
      (behind.map (Step.ofPoint term.points)) m) : m.date.toDays ≤ d.date.toDays := by
  obtain ⟨a, hadvance, hsettle, -⟩ := haccepts
  obtain ⟨hcycle, ha⟩ := inNextCycle?_of_advance hable hadvance
  have hp : p ∈ term.ladder := by simp [hpoint]
  have hrecurs : p.RecursBetween c.date d.date := by
    have hpairwise := h.valid.pairwise_above
    rw [hladder] at hp hpairwise
    rcases List.mem_cons.1 hp with rfl | hbelow
    · exact htop
    · have hpLadder : p ∈ term.ladder := by simp [hpoint]
      exact ((List.pairwise_cons.1 hpairwise).1 p hbelow).recursBetween (hc p hpLadder)
        (hd p hpLadder) htop
  obtain ⟨a', ha', hle⟩ := Point.exists_inNextCycle?_le (hc p (by simp [hpoint]))
    (hd p (by simp [hpoint])) hrecurs
  obtain rfl : a = a' := Option.some.inj (ha.symm.trans ha')
  exact h.toDays_le_of_settle? hpoint hcycle hc ha hd hle hsettle

/-- The attempt at the coarsest point is not made in vain where it recurs before a later instant on
all points. -/
theorem not_inVain_top (h : term.Coherent) (hladder : term.ladder = top :: below)
    (hc : term.IsOn c) (hd : term.IsOn d) (htop : top.RecursBetween c.date d.date)
    (hcycle : top.cycle? = some unit) (hspans : ∀ s ∈ term.spans, s.scope.has unit = false) :
    ¬ (forTerm term defaultTime).InVain c (Step.ofPoint term.points top)
      (below.map (Step.ofPoint term.points)) := by
  intro hvain
  have htopMem : top ∈ term.ladder := by simp [hladder]
  have hable : (forTerm term defaultTime).canAdvance (Step.ofPoint term.points top) = .ok true :=
    canAdvance_ofPoint hcycle hspans
  obtain ⟨⟨a, hadvance⟩, hnot⟩ := hvain hable
  obtain ⟨hrecurs, ha⟩ := inNextCycle?_of_advance hable hadvance
  obtain ⟨a', ha', hle⟩ := Point.exists_inNextCycle?_le (hc top htopMem) (hd top htopMem) htop
  obtain rfl : a = a' := Option.some.inj (ha.symm.trans ha')
  have hsplit : term.ladder = [] ++ top :: below := hladder
  obtain ⟨moved, hsettle, hlt, hholds⟩ := h.exists_settle? hsplit hrecurs hc ha hd hle
    (fun q hq => absurd hq List.not_mem_nil)
  exact hnot moved ⟨a, hadvance, hsettle, DateTime.lt_iff.2 (Or.inl hlt), hholds⟩

/-- Neither is the attempt at a span that repeats by one unit at a time, the one by which the
coarsest point recurs. -/
theorem not_inVain_everyUnit (h : term.Coherent) (hladder : term.ladder = top :: below)
    (hd : term.IsOn d) (htop : top.RecursBetween c.date d.date) (hcycle : top.cycle? = some unit) :
    ¬ (forTerm term defaultTime).InVain c (Step.ofSpan term.points (.counts [(unit, 1)] true))
      (term.ladder.map (Step.ofPoint term.points)) := by
  intro hvain
  obtain ⟨⟨a, hadvance⟩, hnot⟩ := hvain rfl
  have hindex := Point.cycleIndex_of_addSpan? hcycle (Span.advance_eq_ok_iff.1 hadvance)
  obtain ⟨moved, hsettle, hholds⟩ : ∃ moved, (forTerm term defaultTime).settle?
      (term.ladder.map (Step.ofPoint term.points)) a = some moved ∧
        (forTerm term defaultTime).holdsAt moved = true := by
    refine h.exists_settle?_ladder hladder hd ?_
    rw [hindex]
    exact htop
  have hmoved := h.cycleIndex_of_settle?_ladder hladder hsettle
  have hlater : top.RecursBetween c.date moved.date := by
    unfold Point.RecursBetween
    omega
  exact hnot moved ⟨a, hadvance, hsettle, DateTime.lt_iff.2 (Or.inl hlater.toDays_lt), hholds⟩

end Coherent

namespace RecursBy

theorem points_ne_nil (h : term.RecursBy top unit) : term.points ≠ [] := by
  obtain ⟨below, hladder⟩ := List.head?_eq_some_iff.1 h.coarsest
  exact mt ladder_eq_nil_iff.2 (hladder ▸ List.cons_ne_nil _ _)

/-- The first candidates of searches are in order. -/
theorem startsInOrder (h : term.RecursBy top unit) (hvalid : ValidParts term.parts) :
    (forTerm term defaultTime).StartsInOrder := by
  intro start start' c c' hle hc hc'
  have hclock (t : DateTime) (ht : (forTerm term defaultTime).Reached t) :=
    isAt_clock_of_reached hvalid h.points_ne_nil h.leavesTime ht
  rw [(hclock c (.first hc)).le_iff (hclock c' (.first hc'))]
  refine keepsOrder_settle? (fun step hstep => ?_) (DateTime.toDays_le_of_le hle) hc hc'
  rcases List.mem_append.1 hstep with hspan | hpoint
  · obtain ⟨s, hs, rfl⟩ := List.mem_map.1 hspan
    exact Span.keepsOrder_moveTo? (h.leavesTime s hs) _
  · obtain ⟨p, -, rfl⟩ := List.mem_map.1 hpoint
    exact p.keepsOrder_moveTo? _

/-- A span that repeats is advanced to the next cycle of the coarsest point, and not beyond. -/
theorem toDays_le_of_accepts_everyUnit (h : term.RecursBy top unit) (hcoherent : term.Coherent)
    (hladder : term.ladder = top :: below) (hd : term.IsOn d)
    (htop : top.RecursBetween c.date d.date) (haccepts : (forTerm term defaultTime).Accepts c
      (Step.ofSpan term.points (.counts [(unit, 1)] true))
      (term.ladder.map (Step.ofPoint term.points)) m) : m.date.toDays ≤ d.date.toDays := by
  obtain ⟨a, hadvance, hsettle, -⟩ := haccepts
  have ha : c.addSpan? unit 1 = some a := Span.advance_eq_ok_iff.1 hadvance
  refine hcoherent.toDays_le_of_settle?_ladder hladder hd ?_ hsettle
  rw [Point.cycleIndex_of_addSpan? h.cycle ha]
  exact htop

end RecursBy

/-- No advance passes over the first candidate of another search. -/
theorem KeepsRhythm.passesNoStart (h : term.KeepsRhythm top unit) (hvalid : ValidParts term.parts) :
    (forTerm term defaultTime).PassesNoStart := by
  intro start c d m hc hd hcd hm
  have hcoherent := coherent_of_advance hvalid hm
  have hclock (t : DateTime) (ht : (forTerm term defaultTime).Reached t) :=
    isAt_clock_of_reached hvalid h.points_ne_nil h.leavesTime ht
  obtain ⟨below, hladder⟩ := List.head?_eq_some_iff.1 h.coarsest
  obtain ⟨x, -, hsettle⟩ := settle?_steps_eq_some_iff.1 hd
  have hcOn := hcoherent.isOn_of_reached hc
  have hdOn := hcoherent.isOn_of_reached (.first hd)
  have hdays := ((hclock c hc).lt_iff (hclock d (.first hd))).1 hcd
  have htop := hcoherent.recursBetween_top hladder hcOn hdays hsettle
  rw [(hclock m (hc.next hm)).le_iff (hclock d (.first hd))]
  obtain ⟨before, step, behind, hadvanced⟩ := advanced_of_advance hm
  have hable := hadvanced.able
  have haccepts := hadvanced.accepts
  rcases step_cases hadvanced.steps with ⟨front, p, rest, hpoint, rfl, rfl⟩ |
    ⟨front, s, rest, hspans, rfl, rfl⟩
  · exact hcoherent.toDays_le_of_accepts hladder hcOn hdOn htop hpoint hable haccepts
  · rcases h.spans with hfree | hlast
    · -- The coarsest point is tried before any span, and not in vain.
      have hvain := hadvanced.inVain (rest.map (Step.ofSpan term.points))
        (Step.ofPoint term.points top) (below.map (Step.ofPoint term.points))
        (by rw [hladder, List.map_cons])
      exact absurd hvain (hcoherent.not_inVain_top hladder hcOn hdOn htop h.cycle hfree)
    · rw [hspans, List.getLast?_append_cons] at hlast
      obtain ⟨mid, hmid⟩ := List.getLast?_eq_some_iff.1 hlast
      cases mid with
      | nil =>
        obtain ⟨rfl, rfl⟩ := List.cons.inj hmid
        exact h.toDays_le_of_accepts_everyUnit hcoherent hladder hdOn htop haccepts
      | cons first mid =>
        -- The last span is tried before any other, and not in vain.
        obtain ⟨rfl, rfl⟩ := List.cons.inj hmid
        have hvain := hadvanced.inVain (mid.map (Step.ofSpan term.points))
          (Step.ofSpan term.points (.counts [(unit, 1)] true))
          (term.ladder.map (Step.ofPoint term.points)) (by simp)
        exact absurd hvain (hcoherent.not_inVain_everyUnit hladder hdOn htop h.cycle)

end Term

end TimePhrase
