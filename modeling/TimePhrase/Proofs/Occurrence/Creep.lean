import TimePhrase.Proofs.Occurrence.Ahead
import TimePhrase.Proofs.Occurrence.Least
import TimePhrase.Proofs.Occurrence.Phase
import TimePhrase.Proofs.Occurrence.Rounds
import TimePhrase.Proofs.Refusal

/-!
# How far a search creeps

The candidates of a search that come too early lie in one cycle of the coarsest point, and so on
few days. An advance leads to a later day, or to a later time of the same day by the hours and
minutes of a span that repeats. The hours of a day are soon used up, and its minutes are not: there
are more of them than the advances after which a search is given up.
-/

namespace TimePhrase

open Plan

namespace DateTime

variable {period : Nat} {t u : DateTime}

/-- The second instant lies on a later day, at the same time of day, or it lies on the same day,
later by whole periods. -/
def CreepsTo (period : Nat) (t u : DateTime) : Prop :=
  t.date.toDays < u.date.toDays ∧ u.microsOfDay = t.microsOfDay ∨
    t.date.toDays = u.date.toDays ∧ t.microsOfDay < u.microsOfDay ∧
      u.microsOfDay ≡ t.microsOfDay [MOD period]

/-- The days before an instant, and the whole periods of its own day. -/
def progress (period : Nat) (t : DateTime) : Nat := t.date.toDays + t.microsOfDay / period

theorem CreepsTo.progress_lt (h : t.CreepsTo period u) :
    t.progress period < u.progress period := by
  unfold progress
  rcases h with ⟨hdays, hclock⟩ | ⟨hdays, hclock, hphase⟩
  · rw [hclock]
    omega
  · have ht := Nat.div_add_mod t.microsOfDay period
    have hu := Nat.div_add_mod u.microsOfDay period
    have hrest : u.microsOfDay % period = t.microsOfDay % period := hphase
    have hperiods : t.microsOfDay / period < u.microsOfDay / period :=
      Nat.lt_of_mul_lt_mul_left (a := period) (by omega)
    omega

theorem progress_lt_of_toDays_le {days : Nat} (hperiod : period ∣ microsPerDay)
    (h : t.date.toDays ≤ days) : t.progress period < days + microsPerDay / period := by
  have hperiods := Nat.div_lt_div_of_lt_of_dvd hperiod t.microsOfDay_lt
  unfold progress
  omega

end DateTime

namespace TimeUnit

theorem microsPerMinute_dvd (u : TimeUnit) : DateTime.microsPerMinute ∣ u.micros := by
  cases u <;> decide

theorem microsPerHour_dvd {u : TimeUnit} (hu : u ≠ .minute) :
    DateTime.microsPerHour ∣ u.micros := by
  cases u with
  | minute => exact absurd rfl hu
  | _ => decide

end TimeUnit

/-- Below a month, each of its days or weekdays lies in every such month. -/
theorem Point.exists_holdsAt_of_above {n : Int} {looped : Bool} {q : Point} {t : DateTime}
    (habove : (month n looped).Above q) (htime : q.isTime = false) (hq : q.InRange)
    (hfirst : t.date.day = 1) :
    ∃ d : DateTime, d.date.monthIndex = t.date.monthIndex ∧ q.holdsAt d = true := by
  cases q with
  | monthDay day looped =>
    obtain ⟨d, hd⟩ := exists_monthDay t looped false hq.1
    obtain ⟨⟨hindex, hday⟩, -⟩ := moveTo?_monthDay.1 hd
    exact ⟨d, hindex, holdsAt_monthDay.2 hday⟩
  | weekday n looped =>
    have hlength := (Date.monthLength_bounds t.date.monthIndex).1
    have hn : 1 ≤ n ∧ n ≤ 7 := hq
    obtain ⟨date, hdate, hindex⟩ := Date.exists_addDays?_of_day_le (d := t.date)
      ((n - t.date.weekday) % 7).toNat (by omega)
    have hdays := Date.addDays?_eq_some_iff.1 hdate
    refine ⟨t.onDate date, hindex, holdsAt_weekday.2 ?_⟩
    unfold Date.weekday at *
    rw [DateTime.date_onDate]
    omega
  | time => cases htime
  | _ => cases habove

namespace Term

variable {term : Term} {defaultTime : TimeOfDay} {top : Point} {below : List Point}
  {unit : TimeUnit} {s : Span} {start first c m a : DateTime}

/-- A span settles the minute, a span repeats, and a span settles the unit by which the coarsest
point recurs. That point is then not advanced, and a search may creep on by minutes. -/
def Creeps (term : Term) : Prop :=
  (∃ s ∈ term.spans, s.scope.has .minute = true) ∧ (∃ s ∈ term.spans, s.isLooped = true) ∧
    ∃ top ∈ term.ladder.head?, ∃ unit ∈ top.cycle?, ∃ s ∈ term.spans, s.scope.has unit = true

instance (term : Term) : Decidable term.Creeps := inferInstanceAs (Decidable (_ ∧ _ ∧ _))

/-- The shortest stretch of a day by which a candidate of the term may be advanced. -/
def pace (term : Term) : Nat :=
  if term.Creeps then DateTime.microsPerMinute else DateTime.microsPerHour

/-- The number of advances after which every search for the term has ended. -/
def roundLimit (term : Term) : Nat := if term.Creeps then 30 + 24 * 60 else 366

theorem pace_dvd_microsPerDay (term : Term) : term.pace ∣ DateTime.microsPerDay := by
  unfold pace
  split
  · exact ⟨24 * 60, rfl⟩
  · exact ⟨24, Nat.mul_comm _ _⟩

section Cycle

/-- The candidates that are no later than the start of a search lie in one cycle of the coarsest
point. -/
theorem Coherent.cycleIndex_eq_first (h : term.Coherent) (hladder : term.ladder = top :: below)
    (hforward : ∀ s ∈ term.spans, s.LeadsForward)
    (hfirst : (forTerm term defaultTime).settle? (forTerm term defaultTime).steps start
      = some first) (hle : first ≤ c) (hstart : c ≤ start) :
    top.cycleIndex c.date = top.cycleIndex first.date := by
  obtain ⟨x, hx, hsettle⟩ := settle?_steps_eq_some_iff.1 hfirst
  have hsame := h.cycleIndex_of_settle?_ladder hladder hsettle
  have hlow := Point.cycleIndex_le_of_toDays_le (p := top) (DateTime.toDays_le_of_le hle)
  have hhigh := Point.cycleIndex_le_of_toDays_le (p := top)
    (DateTime.toDays_le_of_le (DateTime.le_trans hstart (le_of_applySteps_spans hforward hx)))
  omega

/-- Where a span settles the time of day, no point names one, and there is no default one. -/
theorem unclocked (hvalid : ValidParts term.parts) (hs : s ∈ term.spans)
    (htime : ¬ s.LeavesTime) : (∀ p ∈ term.ladder, p.isTime = false) ∧
      (forTerm term defaultTime).defaultTime = none := by
  have hc := mem_spans.1 hs
  have hunit : s.scope.has .hour = true ∨ s.scope.has .minute = true := by
    unfold Span.LeavesTime at htime
    simpa [or_iff_not_imp_left] using htime
  constructor
  · intro p hp
    cases p with
    | time clock inverted =>
      have hsymm : Std.Symm fun c d : Content => c.scope.Disjoint d.scope :=
        ⟨fun _ _ h => h.symm⟩
      have hdisjoint := hvalid.scopes.forall hc (mem_ladder.1 hp) nofun
      rcases hunit with hhour | hminute
      · exact absurd ⟨hhour, rfl⟩ (hdisjoint .hour)
      · exact absurd ⟨hminute, rfl⟩ (hdisjoint .minute)
    | _ => rfl
  · have hscope (unit : TimeUnit) (hhas : s.scope.has unit = true) : term.scope.has unit = true :=
      Scope.has_sup.2 ⟨_, List.mem_map_of_mem hc, hhas⟩
    rcases hunit with hhour | hminute
    · simp [forTerm, hscope .hour hhour]
    · simp [forTerm, hscope .minute hminute]

/-- Where the calendar has a next cycle of the coarsest point, some instant in it lies on all
points. -/
theorem Coherent.exists_isOn_inNextCycle? (h : term.Coherent) (hrange : term.PointsInRange)
    (hladder : term.ladder = top :: below) (htimes : ∀ p ∈ term.ladder, p.isTime = false)
    (hcycle : top.cycle?.isSome = true) (hc : term.IsOn c) (ha : top.inNextCycle? c = some a) :
    ∃ d, term.IsOn d ∧ top.RecursBetween c.date d.date := by
  have hpairwise := h.valid.pairwise_above
  have hmem (q : Point) : q ∈ top :: below → q ∈ term.ladder := fun hq => hladder ▸ hq
  have htop := hmem top (List.mem_cons_self ..)
  have hatop : top.holdsAt a = true := Point.holdsAt_of_moveTo? (h.weekdays top htop)
    (@Point.moveTo?_inNextCycle? _ _ false _ (hc top htop) (htimes top htop) ha)
  have hrecurs := Point.recursBetween_inNextCycle? hcycle ha
  rw [hladder] at hpairwise
  obtain ⟨hbelow, hrest⟩ := List.pairwise_cons.1 hpairwise
  cases below with
  | nil => exact ⟨a, fun p hp => List.mem_singleton.1 (hladder ▸ hp) ▸ hatop, hrecurs⟩
  | cons q rest =>
    have hq := hmem q (List.mem_cons_of_mem _ (List.mem_cons_self ..))
    have habove := hbelow q (List.mem_cons_self ..)
    have hnotDay (p r : Point) (hp : p.IsDay) (hr : r ∈ term.ladder) : ¬ p.Above r := fun hpr => by
      cases (htimes r hr).symm.trans (Point.isTime_of_above hp hpr)
    -- Only a month has points other than times of day below it.
    cases top with
    | time => exact habove.elim
    | year => cases ha
    | date | monthDay | weekday => exact absurd habove (hnotDay _ q trivial hq)
    | month n looped =>
      have hqDay : q.IsDay := by
        cases q with
        | monthDay | weekday => trivial
        | time => cases htimes _ hq
        | _ => cases habove
      obtain rfl : rest = [] := List.eq_nil_iff_forall_not_mem.2 fun r hr =>
        hnotDay q r hqDay (hmem r (List.mem_cons_of_mem _ (List.mem_cons_of_mem _ hr)))
          ((List.pairwise_cons.1 hrest).1 r hr)
      obtain ⟨⟨-, hmonth, hfirst⟩, -⟩ := Point.moveTo?_month.1
        (@Point.moveTo?_inNextCycle? _ _ false _ (hc _ htop) rfl ha)
      obtain ⟨d, hindex, hd⟩ := Point.exists_holdsAt_of_above habove (htimes q hq)
        (hrange q (mem_ladder.1 hq)) hfirst
      obtain ⟨hyear, hdmonth⟩ := Date.monthIndex_eq_iff.1 hindex
      have hrecurs : c.date.year < a.date.year := hrecurs
      refine ⟨d, fun p hp => ?_, show c.date.year < d.date.year from hyear ▸ hrecurs⟩
      rcases List.mem_pair.1 (hladder ▸ hp) with rfl | rfl
      · exact Point.holdsAt_month.2 (hdmonth ▸ hmonth)
      · exact hd

end Cycle

section Steps

variable {period : Nat} {front behind : List Point} {p : Point} {mid rest : List Span}

/-- The attempt at a point changes the date alone where no point names a time of day. -/
theorem microsOfDay_of_accepts (hnone : (forTerm term defaultTime).defaultTime = none)
    (htimes : ∀ q ∈ term.ladder, q.isTime = false) (hpoint : term.ladder = front ++ p :: behind)
    (hable : (forTerm term defaultTime).canAdvance (Step.ofPoint term.points p) = .ok true)
    (haccepts : (forTerm term defaultTime).Accepts c (Step.ofPoint term.points p)
      (behind.map (Step.ofPoint term.points)) m) : m.microsOfDay = c.microsOfDay := by
  obtain ⟨a, hadvance, hsettle, -⟩ := haccepts
  obtain ⟨-, ha⟩ := inNextCycle?_of_advance hable hadvance
  have hpass : KeepsPhase DateTime.microsPerDay ((forTerm term defaultTime).settle?
      ((p :: behind).map (Step.ofPoint term.points))) := by
    refine keepsPhase_settle? hnone fun step hstep => ?_
    obtain ⟨q, hq, rfl⟩ := List.mem_map.1 hstep
    exact Point.keepsPhase_moveTo? (htimes q (hpoint ▸ List.mem_append_right _ hq)) _
  exact ((hpass hsettle).trans (p.keepsPhase_inNextCycle? ha)).eq_of_lt_of_lt
    m.microsOfDay_lt c.microsOfDay_lt

/-- The attempt at a span creeps on where it does not leave the cycle of the coarsest point: the
points lead back to the same day. -/
theorem Coherent.creepsTo_of_accepts (h : term.Coherent) (hladder : term.ladder = top :: below)
    (hnone : (forTerm term defaultTime).defaultTime = none)
    (htimes : ∀ q ∈ term.ladder, q.isTime = false) (hperiod : period ∣ DateTime.microsPerDay)
    (hwhole : ∀ s ∈ term.spans, s.CountsWhole period) (hc : term.IsOn c)
    (hsame : top.cycleIndex m.date = top.cycleIndex c.date)
    (hspans : term.spans = mid ++ s :: rest)
    (haccepts : (forTerm term defaultTime).Accepts c (Step.ofSpan term.points s)
      (rest.map (Step.ofSpan term.points) ++ term.ladder.map (Step.ofPoint term.points)) m) :
    c.CreepsTo period m := by
  obtain ⟨a, hadvance, hsettle, hlater, -⟩ := haccepts
  have hsettle : (forTerm term defaultTime).settle? (rest.map (Step.ofSpan term.points) ++
      term.ladder.map (Step.ofPoint term.points)) a = some m := hsettle
  rw [hspans, List.forall_mem_append, List.forall_mem_cons] at hwhole
  obtain ⟨-, hs, hrest⟩ := hwhole
  have hphase : m.microsOfDay ≡ c.microsOfDay [MOD period] := by
    refine (keepsPhase_settle? hnone (fun step hstep => ?_) hsettle).trans
      (hs.modEq_of_advance hperiod hadvance)
    rcases List.mem_append.1 hstep with hspan | hpoint
    · obtain ⟨r, hr, rfl⟩ := List.mem_map.1 hspan
      exact Span.keepsPhase_moveTo? hperiod (hrest r hr) _
    · obtain ⟨q, hq, rfl⟩ := List.mem_map.1 hpoint
      exact Point.keepsPhase_moveTo? (htimes q hq) _
  obtain ⟨x, -, hpass⟩ := settle?_append_eq_some_iff.1 hsettle
  have hxm := h.cycleIndex_of_settle?_ladder hladder hpass
  have hdays := h.toDays_le_of_settle?_ladder hladder hc (by omega) hpass
  rcases DateTime.lt_iff.1 hlater with hday | ⟨hday, hclock⟩
  · omega
  · exact Or.inr ⟨hday, hclock, hphase⟩

/-- The attempt at the coarsest point is not made in vain where no span settles its unit. -/
theorem Coherent.not_inVain_top_of_inRange (h : term.Coherent) (hrange : term.PointsInRange)
    (hladder : term.ladder = top :: below) (htimes : ∀ q ∈ term.ladder, q.isTime = false)
    (hcycle : top.cycle? = some unit) (hspans : ∀ s ∈ term.spans, s.scope.has unit = false)
    (hc : term.IsOn c) :
    ¬ (forTerm term defaultTime).InVain c (Step.ofPoint term.points top)
      (below.map (Step.ofPoint term.points)) := by
  intro hvain
  have hable := @canAdvance_ofPoint term defaultTime top unit hcycle hspans
  obtain ⟨⟨a, hadvance⟩, -⟩ := hvain hable
  obtain ⟨hrecurs, ha⟩ := inNextCycle?_of_advance hable hadvance
  obtain ⟨d, hd, hlater⟩ := h.exists_isOn_inNextCycle? hrange hladder htimes hrecurs hc ha
  exact h.not_inVain_top hladder hc hd hlater hcycle hspans hvain

theorem countsWhole_pace (h : term.Creeps ∨ ∀ s ∈ term.spans, s.scope.has .minute = false) :
    ∀ s ∈ term.spans, s.CountsWhole term.pace := by
  intro s hs
  cases s with
  | days count => trivial
  | counts cs looped =>
    intro c hc
    unfold pace
    split
    · exact c.1.microsPerMinute_dvd
    · rename_i hnot
      have hleft := h.resolve_left hnot _ hs
      refine TimeUnit.microsPerHour_dvd fun hminute => ?_
      have hmem : TimeUnit.minute ∈ cs.map (·.1) := hminute ▸ List.mem_map_of_mem hc
      simp [Span.scope, Scope.of, hmem] at hleft

/-- Within one cycle of the coarsest point, every advance creeps on by the pace of the term. -/
theorem Coherent.creepsTo_of_advance (h : term.Coherent) (hrange : term.PointsInRange)
    (hladder : term.ladder = top :: below) (hcycle : top.cycle? = some unit)
    (hc : (forTerm term defaultTime).Reached c)
    (hm : (forTerm term defaultTime).advance c = .ok (some m))
    (hsame : top.cycleIndex m.date = top.cycleIndex c.date) : c.CreepsTo term.pace m := by
  have hlater := lt_of_advance hm
  by_cases hleaves : ∀ s ∈ term.spans, s.LeavesTime
  · have hpoints : term.points ≠ [] := mt ladder_eq_nil_iff.2 (hladder ▸ List.cons_ne_nil _ _)
    have hcClock := isAt_clock_of_reached h.valid hpoints hleaves hc
    have hmClock := isAt_clock_of_reached h.valid hpoints hleaves (hc.next hm)
    exact Or.inl ⟨(hcClock.lt_iff hmClock).1 hlater, hmClock.microsOfDay_eq hcClock⟩
  · simp only [Classical.not_forall] at hleaves
    obtain ⟨timed, htimed, hsettles⟩ := hleaves
    obtain ⟨htimes, hnone⟩ := @unclocked _ defaultTime _ h.valid htimed hsettles
    have hcOn := h.isOn_of_reached hc
    obtain ⟨before, step, behind, hadvanced⟩ := advanced_of_advance hm
    rcases step_cases hadvanced.steps with ⟨front, p, rest, hpoint, rfl, rfl⟩ |
      ⟨front, s, rest, hspans, rfl, rfl⟩
    · have hclock := microsOfDay_of_accepts hnone htimes hpoint hadvanced.able hadvanced.accepts
      exact Or.inl ⟨(DateTime.lt_iff_of_microsOfDay_eq hclock.symm).1 hlater, hclock⟩
    · refine h.creepsTo_of_accepts hladder hnone htimes term.pace_dvd_microsPerDay
        (countsWhole_pace ?_) hcOn hsame hspans hadvanced.accepts
      have hs : s ∈ term.spans := hspans ▸ List.mem_append_right _ (List.mem_cons_self ..)
      -- A span is only tried where the coarsest point may not be advanced.
      by_cases hsettled : ∃ r ∈ term.spans, r.scope.has unit = true
      · by_cases hminutes : ∃ r ∈ term.spans, r.scope.has .minute = true
        · exact Or.inl ⟨hminutes, ⟨s, hs, isLooped_of_canAdvance hadvanced.able⟩,
            top, hladder ▸ rfl, unit, hcycle, hsettled⟩
        · exact Or.inr (by simpa using hminutes)
      · have hvain := hadvanced.inVain (rest.map (Step.ofSpan term.points))
          (Step.ofPoint term.points top) (below.map (Step.ofPoint term.points))
          (by rw [hladder, List.map_cons])
        exact absurd hvain (h.not_inVain_top_of_inRange hrange hladder htimes hcycle
          (by simpa using hsettled) hcOn)

end Steps

section Searches

/-- The advances of a search for points that recur end within a month of days and the paces of a
day. -/
theorem Coherent.endsWithin (h : term.Coherent) (hrange : ∀ part ∈ term.parts, part.InRange)
    (hforward : ∀ s ∈ term.spans, s.LeadsForward) (hladder : term.ladder = top :: below)
    (hcycle : top.cycle? = some unit) :
    (forTerm term defaultTime).EndsWithin (30 + DateTime.microsPerDay / term.pace) := by
  intro threshold first hfirst
  have hpoints : term.PointsInRange := fun p hp => inRange_of_mem_contents hrange hp
  have htop : top ∈ term.ladder := hladder ▸ List.mem_cons_self ..
  have hsame {t : DateTime} (hle : first ≤ t) (hstart : t ≤ threshold.start) :
      top.cycleIndex t.date = top.cycleIndex first.date :=
    h.cycleIndex_eq_first hladder hforward hfirst hle hstart
  have hstep (t u : DateTime) (ht : (forTerm term defaultTime).Reached t ∧ first ≤ t)
      (hu : (forTerm term defaultTime).advance t = .ok (some u)) :
      (forTerm term defaultTime).Reached u ∧ first ≤ u :=
    ⟨ht.1.next hu, DateTime.le_trans ht.2 (DateTime.le_of_lt (lt_of_advance hu))⟩
  have hgrows (t u : DateTime) (ht : (forTerm term defaultTime).Reached t ∧ first ≤ t)
      (hu : (forTerm term defaultTime).advance t = .ok (some u))
      (hearly : ¬ threshold.admits u = true) : t.progress term.pace < u.progress term.pace := by
    have hstart := Threshold.le_start_of_not_admits hearly
    have htSame := hsame ht.2 (DateTime.le_trans (DateTime.le_of_lt (lt_of_advance hu)) hstart)
    have huSame := hsame (hstep t u ht hu).2 hstart
    exact (h.creepsTo_of_advance hpoints hladder hcycle ht.1 hu
      (huSame.trans htSame.symm)).progress_lt
  have hbound (t : DateTime) (ht : (forTerm term defaultTime).Reached t ∧ first ≤ t)
      (hearly : ¬ threshold.admits t = true) : t.progress term.pace <
        first.date.toDays + 30 + DateTime.microsPerDay / term.pace := by
    refine DateTime.progress_lt_of_toDays_le term.pace_dvd_microsPerDay ?_
    exact Point.toDays_le_of_cycleIndex_eq (Option.isSome_iff_exists.2 ⟨unit, hcycle⟩)
      (h.isOn_of_reached ht.1 top htop) (h.isOn_of_reached (.first hfirst) top htop)
      (hsame ht.2 (Threshold.le_start_of_not_admits hearly))
  obtain ⟨rounds, hrounds, result, hends⟩ := exists_endsAfter (Plan.exists_advance hrange) hstep
    hgrows hbound ⟨.first hfirst, Nat.le_refl _⟩
  refine ⟨rounds, Nat.le_trans hrounds ?_, result, hends⟩
  have hfirst : first.date.toDays ≤ first.progress term.pace := Nat.le_add_right ..
  exact Nat.sub_le_of_le_add (by omega)

/-- Without points, a first candidate that is advanced at all lies at the start of its search. -/
theorem endsWithin_of_spans (hrange : ∀ part ∈ term.parts, part.InRange)
    (hforward : ∀ s ∈ term.spans, s.LeadsForward) (hpoints : term.points = []) :
    (forTerm term defaultTime).EndsWithin 1 := by
  intro threshold first hfirst
  have hladder : term.ladder = [] := ladder_eq_nil_iff.2 hpoints
  have hnone : (forTerm term defaultTime).defaultTime = none := by simp [forTerm, hpoints]
  obtain ⟨x, hx, hsettle⟩ := settle?_steps_eq_some_iff.1 hfirst
  rw [hladder, settle?_eq_some_iff] at hsettle
  obtain ⟨moved, hmoved, hrealign⟩ := hsettle
  obtain rfl : x = moved := Option.some.inj hmoved
  rw [realign?_forTerm, hladder, setDefaultTime, hnone] at hrealign
  obtain rfl : x = first := Option.some.inj hrealign
  have hstep (t u : DateTime) (ht : threshold.start ≤ t)
      (hu : (forTerm term defaultTime).advance t = .ok (some u)) : threshold.start ≤ u :=
    DateTime.le_trans ht (DateTime.le_of_lt (lt_of_advance hu))
  have hgrows (t u : DateTime) (_ : threshold.start ≤ t)
      (hu : (forTerm term defaultTime).advance t = .ok (some u))
      (_ : ¬ threshold.admits u = true) : t.toMicros < u.toMicros := lt_of_advance hu
  have hbound (t : DateTime) (_ : threshold.start ≤ t) (hearly : ¬ threshold.admits t = true) :
      t.toMicros < threshold.start.toMicros + 1 :=
    Nat.lt_succ_of_le (Threshold.le_start_of_not_admits hearly)
  have hstart : threshold.start ≤ x := le_of_applySteps_spans hforward hx
  obtain ⟨rounds, hrounds, result, hends⟩ := exists_endsAfter (Plan.exists_advance hrange) hstep
    hgrows hbound hstart
  have hlow := DateTime.le_def.1 hstart
  exact ⟨rounds, by omega, result, hends⟩

/-- The occurrences of a term that names a year lie on different days of that year. -/
theorem NamesPoints.endsWithin_of_isAbsolute {p : Point} (h : term.NamesPoints)
    (hrange : ∀ part ∈ term.parts, part.InRange) (hp : p ∈ term.ladder)
    (hfixed : p.isAbsolute = true) : (forTerm term defaultTime).EndsWithin 366 := by
  intro threshold first hfirst
  have hoccurs := h.occursAt_first hfirst
  have hstep (t u : DateTime) (ht : term.OccursAt defaultTime t)
      (hu : (forTerm term defaultTime).advance t = .ok (some u)) :
      term.OccursAt defaultTime u := by
    obtain ⟨next, hnext, hlater, -⟩ := h.advance_spec ht
    exact (hlater u (Except.ok.inj (hnext.symm.trans hu))).1
  have hgrows (t u : DateTime) (ht : term.OccursAt defaultTime t)
      (hu : (forTerm term defaultTime).advance t = .ok (some u))
      (_ : ¬ threshold.admits u = true) : t.date.toDays < u.date.toDays :=
    (ht.lt_iff (hstep t u ht hu)).1 (lt_of_advance hu)
  have hbound (t : DateTime) (ht : term.OccursAt defaultTime t)
      (_ : ¬ threshold.admits t = true) : t.date.toDays < first.date.toDays + 366 := by
    have hyear := Point.year_eq_of_isAbsolute hfixed (isOn ht p hp) (isOn hoccurs p hp)
    exact Nat.lt_succ_of_le (Date.toDays_le_of_year_eq hyear)
  obtain ⟨rounds, hrounds, result, hends⟩ := exists_endsAfter (Plan.exists_advance hrange) hstep
    hgrows hbound hoccurs
  exact ⟨rounds, by omega, result, hends⟩

/-- Every search ends of its own accord within the limit of its term. -/
theorem endsWithin_roundLimit (hvalid : ValidParts term.parts)
    (hrange : ∀ part ∈ term.parts, part.InRange)
    (hcounts : ∀ s ∈ term.spans, s.HasPositiveCounts) (defaultTime : TimeOfDay) :
    (forTerm term defaultTime).EndsWithin term.roundLimit := by
  have hcontent {c : Content} (hc : c ∈ term.content) : c.InRange :=
    inRange_of_mem_contents hrange hc
  have hforward : ∀ s ∈ term.spans, s.LeadsForward := by
    intro s hs
    cases s with
    | counts cs looped => exact hcounts _ hs
    | days count => exact (hcontent (mem_spans.1 hs)).1
  have hpoints : term.PointsInRange := fun p hp => hcontent hp
  have hlimit : 366 ≤ term.roundLimit ∧
      30 + DateTime.microsPerDay / term.pace ≤ term.roundLimit := by
    unfold roundLimit pace
    split <;> decide
  cases hladder : term.ladder with
  | nil =>
    have hnone : term.points = [] := ladder_eq_nil_iff.1 hladder
    exact (endsWithin_of_spans hrange hforward hnone).mono (by omega)
  | cons top below =>
    have htop : top ∈ term.ladder := hladder ▸ List.mem_cons_self ..
    cases hcycle : top.cycle? with
    | some unit =>
      have hcoherent : term.Coherent := ⟨hvalid, fun p hp => hpoints.weekdayExists hp⟩
      exact (hcoherent.endsWithin hrange hforward hladder hcycle).mono hlimit.2
    | none =>
      have hfixed : top.isAbsolute = true := Point.isAbsolute_of_cycle?_eq_none hcycle
      have hspans : term.spans = [] := List.eq_nil_iff_forall_not_mem.2 fun s hs => by
        cases hvalid.fixedDate ⟨_, mem_ladder.1 htop, hfixed⟩ _ (mem_spans.1 hs)
      have hnames : term.NamesPoints :=
        ⟨List.ne_nil_of_mem (mem_ladder.1 htop), hspans, hvalid, hpoints⟩
      exact (hnames.endsWithin_of_isAbsolute hrange htop hfixed).mono hlimit.1

/-- The term has valid parts and positive counts, its searches end of their own accord within the
given number of advances, and the same holds of its limits in turn. -/
inductive EndsBy (cap : Nat) : Term → Prop
  | intro {term : Term} (hvalid : checkParts term.parts = .ok ())
    (hcounts : ∀ s ∈ term.spans, s.HasPositiveCounts) (hcap : term.roundLimit ≤ cap)
    (hlimits : ∀ side limit, term.limit? side = some limit → EndsBy cap limit) : EndsBy cap term

/-- The limits of the term end within the given number of advances. -/
def LimitsEndBy (cap : Nat) (term : Term) : Prop :=
  ∀ side limit, term.limit? side = some limit → limit.EndsBy cap

/-- The limits of a term that was checked as a whole do not repeat, and so none of them creeps. -/
theorem endsBy_of_checkLimit {limit : Term} (hvalid : checkLimit limit.parts = .ok ())
    (hcounts : ∀ s ∈ limit.spans, s.HasPositiveCounts) : limit.EndsBy 366 := by
  obtain ⟨hfixed, hparts⟩ := checkLimit_eq_ok_iff.1 hvalid
  have hnot : ¬ limit.Creeps := by
    rintro ⟨-, ⟨s, hs, hlooped⟩, -⟩
    have hnever := (hfixed _ (mem_contents.1 (mem_spans.1 hs))).2
    exact absurd hlooped (Bool.eq_false_iff.1 hnever)
  refine .intro (checkParts_eq_ok_iff.2 hparts) hcounts (Nat.le_of_eq (if_neg hnot)) ?_
  intro side inner hinner
  rw [limit?_eq_none fun part hpart => (hfixed part hpart).1] at hinner
  cases hinner

/-- Limits that end within a number of advances stand for the same instants from there on. -/
theorem LimitsEndBy.boundsForWithin_eq {limit cap : Nat} {since : DateTime}
    {bounds : Option Bounds} (hcap : limit ≤ cap) (hrange : ∀ part ∈ term.parts, part.InRange)
    (h : bounds = none → term.LimitsEndBy limit) :
    term.boundsForWithin cap since defaultTime bounds =
      term.boundsForWithin limit since defaultTime bounds := by
  have hnext {t : Term} (ht : t.EndsBy limit) (hparts : ∀ part ∈ t.parts, part.InRange) :
      t.nextWithin cap since false defaultTime none =
        t.nextWithin limit since false defaultTime none := by
    induction ht with
    | intro hvalid hcounts hlimit _ ih =>
      have hends := (endsWithin_roundLimit (checkParts_eq_ok_iff.1 hvalid) hparts hcounts
        defaultTime).mono hlimit
      exact nextWithin_eq hends hcap (Nat.le_refl _) (boundsWithin_congr fun side inner hinner =>
        ih side inner hinner (inRange_of_limit? hparts hinner))
  cases bounds with
  | some given => rfl
  | none =>
    refine boundsWithin_congr fun side inner hinner => ?_
    exact hnext (h rfl side inner hinner) (inRange_of_limit? hrange hinner)

/-- From the limit of a term on, it makes no difference how many advances a search may take, and none
is given up. Unless the term creeps, the limit is below the number that searches do take. Where the
bounds are the term's own limits, these have to end within the same number of advances. -/
theorem nextWithin_of_roundLimit_le (hvalid : checkParts term.parts = .ok ())
    (hrange : ∀ part ∈ term.parts, part.InRange)
    (hcounts : ∀ s ∈ term.spans, s.HasPositiveCounts) (since : DateTime) (strict : Bool)
    (defaultTime : TimeOfDay) (bounds : Option Bounds) :
    (forTerm term defaultTime).EndsWithin term.roundLimit ∧
    (∀ limit cap, term.roundLimit ≤ limit → limit ≤ cap →
      ((bounds = none → term.LimitsEndBy limit) →
        term.nextWithin cap since strict defaultTime bounds =
          term.nextWithin limit since strict defaultTime bounds) ∧
      Concludes (term.nextWithin cap since strict defaultTime bounds)) ∧
    (¬ term.Creeps →
      ((bounds = none → term.LimitsEndBy 366) →
        ∀ cap, 366 ≤ cap → term.nextWithin cap since strict defaultTime bounds =
          term.next since strict defaultTime bounds) ∧
      Concludes (term.next since strict defaultTime bounds)) := by
  have hends := endsWithin_roundLimit (checkParts_eq_ok_iff.1 hvalid) hrange hcounts defaultTime
  have hsame {limit cap : Nat} (hlimit : term.roundLimit ≤ limit) (hcap : limit ≤ cap)
      (hlimits : bounds = none → term.LimitsEndBy limit) :
      term.nextWithin cap since strict defaultTime bounds =
        term.nextWithin limit since strict defaultTime bounds :=
    nextWithin_eq (hends.mono hlimit) hcap (Nat.le_refl _)
      (LimitsEndBy.boundsForWithin_eq hcap hrange hlimits)
  refine ⟨hends, fun limit cap hlimit hcap => ⟨hsame hlimit hcap,
    concludes_nextWithin hends (Nat.le_trans hlimit hcap)⟩, fun hnot => ?_⟩
  have hlimit : term.roundLimit ≤ 366 := Nat.le_of_eq (if_neg hnot)
  have hmax : 366 ≤ maxAdvances := by decide
  exact ⟨fun hlimits cap hcap => (hsame hlimit hcap hlimits).trans (hsame hlimit hmax hlimits).symm,
    concludes_nextWithin hends (Nat.le_trans hlimit hmax)⟩

/-- Every week and every count of a shorter unit, on Monday. -/
def weeklyAndEvery (unit : TimeUnit) : Term :=
  ⟨[.content (.span (.counts [(.week, 1)] true)), .content (.span (.counts [(unit, 1)] true)),
    .content (.point (.weekday 1 false))]⟩

theorem inRange_weeklyAndEvery (unit : TimeUnit) :
    ∀ part ∈ (weeklyAndEvery unit).parts, part.InRange := by
  have hcount (longer : TimeUnit) : (Span.counts [(longer, 1)] true).InRange :=
    Span.inRange_counts_singleton (by decide) longer true
  have hmonday : (Point.weekday 1 false).InRange := by decide
  intro part hpart
  simp only [weeklyAndEvery, List.mem_cons, List.not_mem_nil, or_false] at hpart
  obtain rfl | rfl | rfl := hpart
  · exact .content (hcount .week)
  · exact .content (hcount unit)
  · exact .content hmonday

theorem hasPositiveCounts_weeklyAndEvery (unit : TimeUnit) :
    ∀ s ∈ (weeklyAndEvery unit).spans, s.HasPositiveCounts := by
  intro s hs
  obtain rfl | rfl := List.mem_pair.1 hs
  · exact List.forall_mem_singleton.2 Int.one_pos
  · exact List.forall_mem_singleton.2 Int.one_pos

/-- Every week and every hour on Monday, until the first of February 2024. -/
def hoursUntilFebruary : Term :=
  ⟨(weeklyAndEvery .hour).parts ++
    [.limiter .upper (some [.content (.point (.date 1 2 (some 2024) false))])]⟩

theorem limitsEndBy_hoursUntilFebruary : hoursUntilFebruary.LimitsEndBy 366 := by
  intro side limit hlimit
  cases side with
  | lower => cases hlimit
  | upper =>
    cases hlimit
    exact endsBy_of_checkLimit (by decide +kernel) nofun

/-- Every week and every hour on Monday, a search from a Sunday on creeps through the last Monday by
hours. Twice as many advances would not lead it elsewhere, with a limit or without. -/
theorem nextWithin_of_roundLimit_le_hours :
    let since : DateTime := ⟨⟨2024, 1, 7, by decide⟩, 0, 5, 0, 0⟩
    let found : DateTime := ⟨⟨2024, 1, 8, by decide⟩, 0, 5, 0, 0⟩
    ¬ (weeklyAndEvery .hour).Creeps ∧
      (weeklyAndEvery .hour).nextWithin 1000 since true .midnight (some .none) = .ok found ∧
      ¬ hoursUntilFebruary.Creeps ∧ hoursUntilFebruary.LimitsEndBy 366 ∧
      hoursUntilFebruary.nextWithin 1000 since true .midnight none = .ok found := by
  intro since found
  have hnot : ¬ (weeklyAndEvery .hour).Creeps := by decide
  have hfound : (weeklyAndEvery .hour).next since true .midnight (some .none) = .ok found := by
    decide +kernel
  have hnotLimited : ¬ hoursUntilFebruary.Creeps := by decide
  have hfoundLimited : hoursUntilFebruary.next since true .midnight none = .ok found := by
    decide +kernel
  have hrange : ∀ part ∈ hoursUntilFebruary.parts, part.InRange := by
    have hfebruary : (Point.date 1 2 (some 2024) false).InRange := by decide
    refine List.forall_mem_append.2 ⟨inRange_weeklyAndEvery .hour, List.forall_mem_singleton.2 ?_⟩
    exact .limit (List.forall_mem_singleton.2 (.content hfebruary))
  obtain ⟨-, -, hsteady⟩ := nextWithin_of_roundLimit_le (by decide +kernel)
    (inRange_weeklyAndEvery .hour) (hasPositiveCounts_weeklyAndEvery .hour) since true .midnight
    (some .none)
  obtain ⟨-, -, hsteadyLimited⟩ := nextWithin_of_roundLimit_le (by decide +kernel) hrange
    (hasPositiveCounts_weeklyAndEvery .hour) since true .midnight none
  exact ⟨hnot, ((hsteady hnot).1 nofun 1000 (by decide)).trans hfound, hnotLimited,
    limitsEndBy_hoursUntilFebruary, ((hsteadyLimited hnotLimited).1
      (fun _ => limitsEndBy_hoursUntilFebruary) 1000 (by decide)).trans hfoundLimited⟩

/-- Every week and every minute on Monday, the search is given up before it finds the next one. -/
theorem not_forall_concludes_next : ¬ ∀ (term : Term) (since : DateTime),
    checkParts term.parts = .ok () → (∀ part ∈ term.parts, part.InRange) →
    (∀ s ∈ term.spans, s.HasPositiveCounts) →
    Concludes (term.next since true .midnight (some .none)) := by
  intro h
  have hconcludes := h (weeklyAndEvery .minute) ⟨⟨2024, 1, 7, by decide⟩, 0, 5, 0, 0⟩
    (by decide +kernel) (inRange_weeklyAndEvery .minute) (hasPositiveCounts_weeklyAndEvery .minute)
  exact hconcludes "every 1 week every 1 minute on Monday" ⟨⟨2024, 1, 7, by decide⟩, 0, 5, 0, 0⟩
    (by decide +kernel)

end Searches

end Term

end TimePhrase
