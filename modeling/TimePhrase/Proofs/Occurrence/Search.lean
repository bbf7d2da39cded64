import TimePhrase.Proofs.Occurrence.Settle

/-!
# What a search for an occurrence returns

A search starts from the instant that one pass through the plan leads to, and each advance
leads to a later instant on the points of the plan. What holds of the first candidate and
survives an advance therefore holds of the result.
-/

namespace TimePhrase

namespace Plan

variable {plan : Plan} {candidate moved : DateTime} {earlier later : List Step} {step : Step}

/-- The attempt at a step leads to a later instant on the plan. -/
def Accepts (plan : Plan) (candidate : DateTime) (step : Step) (behind : List Step)
    (moved : DateTime) : Prop :=
  ∃ advanced, step.content.advance candidate = .ok advanced ∧
    plan.settle? (stepsAfterAdvance step behind) advanced = some moved ∧
    candidate < moved ∧ plan.holdsAt moved = true

/-- A step is tried in vain: it may not be advanced, or it leads to no later instant on the
plan. -/
def InVain (plan : Plan) (candidate : DateTime) (step : Step) (behind : List Step) : Prop :=
  plan.canAdvance step = .ok true → (∃ advanced, step.content.advance candidate = .ok advanced) ∧
    ∀ moved, ¬ plan.Accepts candidate step behind moved

/-- The attempt at the last step of those still to be tried either ends the advance or is made in
vain. -/
theorem advanceOne_cons (h : plan.advanceOne candidate (step :: earlier) later = .ok (some moved)) :
    plan.canAdvance step = .ok true ∧ plan.Accepts candidate step later moved ∨
      plan.InVain candidate step later ∧
        plan.advanceOne candidate earlier (step :: later) = .ok (some moved) := by
  rw [advanceOne] at h
  obtain ⟨able, hable, h⟩ := bind_eq_ok_iff.1 h
  cases able with
  | false =>
    refine Or.inr ⟨fun htrue => ?_, h⟩
    cases hable.symm.trans htrue
  | true =>
    simp only [Bool.not_true, Bool.false_eq_true, if_false] at h
    cases hadvance : step.content.advance candidate with
    | error failure => cases failure <;> simp [hadvance] at h
    | ok advanced =>
      have hvain (hnot : ∀ m, plan.settle? (stepsAfterAdvance step later) advanced = some m →
          ¬ (candidate < m ∧ plan.holdsAt m = true)) : plan.InVain candidate step later := by
        refine fun _ => ⟨⟨advanced, hadvance⟩, ?_⟩
        rintro m ⟨other, hother, hsettle, haccept⟩
        obtain rfl := Except.ok.inj (hadvance.symm.trans hother)
        exact hnot m hsettle haccept
      simp only [hadvance] at h
      cases hsettle : plan.settle? (stepsAfterAdvance step later) advanced with
      | none =>
        rw [hsettle] at h
        refine Or.inr ⟨hvain fun m hm => ?_, h⟩
        cases hsettle.symm.trans hm
      | some settled =>
        simp only [hsettle] at h
        split at h
        · rename_i haccept
          obtain ⟨hlater, hholds⟩ := Bool.and_eq_true _ _ ▸ haccept
          obtain rfl : settled = moved := Option.some.inj (Except.ok.inj h)
          exact Or.inl ⟨hable, advanced, hadvance, hsettle, of_decide_eq_true hlater, hholds⟩
        · rename_i hreject
          refine Or.inr ⟨hvain fun m hm haccept => hreject ?_, h⟩
          obtain rfl := Option.some.inj (hsettle.symm.trans hm)
          simpa using haccept

section Attempts

variable {advanced : DateTime}

theorem advanceOne_of_unable (h : plan.canAdvance step = .ok false) :
    plan.advanceOne candidate (step :: earlier) later =
      plan.advanceOne candidate earlier (step :: later) := by
  rw [advanceOne, h, ok_bind]
  rfl

theorem advanceOne_of_outOfRange (hable : plan.canAdvance step = .ok true)
    (h : step.content.advance candidate = .error .outOfRange) :
    plan.advanceOne candidate (step :: earlier) later = .ok none := by
  rw [advanceOne, hable, ok_bind, h]
  rfl

theorem advanceOne_of_accepts (hable : plan.canAdvance step = .ok true)
    (h : plan.Accepts candidate step later moved) :
    plan.advanceOne candidate (step :: earlier) later = .ok (some moved) := by
  obtain ⟨advanced, hadvance, hsettle, hlater, hholds⟩ := h
  rw [advanceOne, hable, ok_bind, hadvance]
  simp [hsettle, hlater, hholds]

theorem advanceOne_of_settle?_eq_none (hable : plan.canAdvance step = .ok true)
    (hadvance : step.content.advance candidate = .ok advanced)
    (hsettle : plan.settle? (stepsAfterAdvance step later) advanced = none) :
    plan.advanceOne candidate (step :: earlier) later =
      plan.advanceOne candidate earlier (step :: later) := by
  rw [advanceOne, hable, ok_bind, hadvance]
  simp [hsettle]

end Attempts

/-- The step has been advanced, and the steps from it on have been taken anew. All steps behind
it have been tried in vain. -/
structure Advanced (plan : Plan) (candidate moved : DateTime) (before : List Step)
    (step : Step) (behind : List Step) : Prop where
  steps : plan.steps = before ++ step :: behind
  able : plan.canAdvance step = .ok true
  accepts : plan.Accepts candidate step behind moved
  inVain : ∀ mid other rest, behind = mid ++ other :: rest → plan.InVain candidate other rest

theorem advanced_of_advanceOne (hsteps : plan.steps = earlier.reverse ++ later)
    (hvain : ∀ mid other rest, later = mid ++ other :: rest → plan.InVain candidate other rest)
    (h : plan.advanceOne candidate earlier later = .ok (some moved)) :
    ∃ before step behind, plan.Advanced candidate moved before step behind := by
  induction earlier generalizing later with
  | nil => simp [advanceOne] at h
  | cons step rest ih =>
    rw [List.reverse_cons, List.append_assoc, List.singleton_append] at hsteps
    obtain ⟨hable, haccepts⟩ | ⟨hstep, hrest⟩ := advanceOne_cons h
    · exact ⟨rest.reverse, step, later, hsteps, hable, haccepts, hvain⟩
    · refine ih hsteps (fun mid other behind heq => ?_) hrest
      cases mid with
      | nil =>
        obtain ⟨rfl, rfl⟩ := List.cons.inj heq
        exact hstep
      | cons first mid => exact hvain mid other behind (List.cons.inj heq).2

/-- The next candidate comes from the last step that can be advanced to a later instant on the
plan. -/
theorem advanced_of_advance (h : plan.advance candidate = .ok (some moved)) :
    ∃ before step behind, plan.Advanced candidate moved before step behind :=
  advanced_of_advanceOne (by rw [List.reverse_reverse, List.append_nil])
    (fun mid other rest heq => by simp at heq) h

theorem lt_of_advance (h : plan.advance candidate = .ok (some moved)) : candidate < moved := by
  obtain ⟨before, step, behind, hadvanced⟩ := advanced_of_advance h
  obtain ⟨advanced, -, -, hlater, -⟩ := hadvanced.accepts
  exact hlater

section Steps

variable {term : Term} {defaultTime : TimeOfDay}

/-- A step of the plan is that of a point, with the finer points behind it, or that of a span. -/
theorem step_cases {before behind : List Step}
    (h : (forTerm term defaultTime).steps = before ++ step :: behind) :
    (∃ front p rest, term.ladder = front ++ p :: rest ∧ step = Step.ofPoint term.points p ∧
        behind = rest.map (Step.ofPoint term.points)) ∨
      ∃ front s rest, term.spans = front ++ s :: rest ∧ step = Step.ofSpan term.points s ∧
        behind = rest.map (Step.ofSpan term.points) ++
          term.ladder.map (Step.ofPoint term.points) := by
  have hpoint {front : List Step} (hladder : term.ladder.map (Step.ofPoint term.points) =
      front ++ step :: behind) : ∃ front p rest, term.ladder = front ++ p :: rest ∧
        step = Step.ofPoint term.points p ∧ behind = rest.map (Step.ofPoint term.points) := by
    obtain ⟨front, tail, hladder, -, htail⟩ := List.map_eq_append_iff.1 hladder
    obtain ⟨p, rest, rfl, hstep, hrest⟩ := List.map_eq_cons_iff.1 htail
    exact ⟨front, p, rest, hladder, hstep.symm, hrest.symm⟩
  rcases List.append_eq_append_iff.1 h with ⟨front, -, hladder⟩ | ⟨tail, hspans, hbehind⟩
  · exact Or.inl (hpoint hladder)
  · cases tail with
    | nil => exact Or.inl (@hpoint [] hbehind.symm)
    | cons first tail =>
      obtain ⟨hstep, hbehind⟩ := List.cons.inj hbehind
      obtain ⟨front, last, hsplit, -, hlast⟩ := List.map_eq_append_iff.1 hspans
      obtain ⟨s, rest, rfl, hs, hrest⟩ := List.map_eq_cons_iff.1 hlast
      exact Or.inr ⟨front, s, rest, hsplit, hstep.trans hs.symm, by rw [hrest]; exact hbehind⟩

/-- Only a span that repeats is advanced. -/
theorem isLooped_of_canAdvance {s : Span} (hable : (forTerm term defaultTime).canAdvance
      (Step.ofSpan term.points s) = .ok true) : s.isLooped = true := by
  cases s with
  | days count => simp [canAdvance, Step.ofSpan, Content.cycle?, Span.cycle?] at hable
  | counts cs looped =>
    cases looped with
    | true => rfl
    | false => cases cs <;> simp [canAdvance, Step.ofSpan, Content.cycle?, Span.cycle?] at hable

end Steps

end Plan

namespace Term

variable {term : Term} {plan : Plan} {since : DateTime} {strict : Bool} {threshold : Threshold}
  {defaultTime : TimeOfDay} {candidate result : DateTime}

theorem advanceUntil_of_admits (rounds : Nat) (h : threshold.admits candidate = true) :
    term.advanceUntil plan since threshold rounds candidate = .ok candidate := by
  unfold advanceUntil
  rw [if_pos h, pure_eq_ok]

/-- A search goes on from a candidate that is too early with the one it is advanced to. -/
theorem exists_advance_of_advanceUntil {rounds : Nat} (hearly : ¬ threshold.admits candidate = true)
    (h : term.advanceUntil plan since threshold rounds candidate = .ok result) :
    ∃ fewer moved, rounds = fewer + 1 ∧ plan.advance candidate = .ok (some moved) ∧
      term.advanceUntil plan since threshold fewer moved = .ok result := by
  cases rounds with
  | zero =>
    rw [advanceUntil, if_neg hearly] at h
    exact (named_bind_refuse_ne_ok _ _ _ h).elim
  | succ fewer =>
    rw [advanceUntil, if_neg hearly] at h
    obtain ⟨next, hadvance, h⟩ := bind_eq_ok_iff.1 h
    cases next with
    | none => exact (named_bind_refuse_ne_ok _ _ _ h).elim
    | some moved => exact ⟨fewer, moved, rfl, hadvance, h⟩

theorem advanceUntil_of_advance {rounds : Nat} {moved : DateTime}
    (hearly : ¬ threshold.admits candidate = true)
    (h : plan.advance candidate = .ok (some moved)) :
    term.advanceUntil plan since threshold (rounds + 1) candidate =
      term.advanceUntil plan since threshold rounds moved := by
  rw [advanceUntil, if_neg hearly, h, ok_bind]

theorem advanceUntil_of_exhausted {rounds : Nat} {text : String}
    (htext : term.describe = .ok text) (hearly : ¬ threshold.admits candidate = true)
    (h : plan.advance candidate = .ok none) :
    term.advanceUntil plan since threshold (rounds + 1) candidate =
      .error (.expression (.neverOccurs text since)) := by
  rw [advanceUntil, if_neg hearly, h, ok_bind, htext]
  rfl

/-- What holds of a candidate and survives every advance of one that is too early holds of the
result of a search, which is late enough. -/
theorem of_advanceUntil {P : DateTime → Prop} {rounds : Nat} (hcandidate : P candidate)
    (hstep : ∀ t u, P t → ¬ threshold.admits t = true → plan.advance t = .ok (some u) → P u)
    (h : term.advanceUntil plan since threshold rounds candidate = .ok result) :
    P result ∧ threshold.admits result = true := by
  induction rounds using Nat.strongRecOn generalizing candidate with
  | ind rounds ih =>
    by_cases hadmits : threshold.admits candidate = true
    · rw [advanceUntil_of_admits rounds hadmits] at h
      exact Except.ok.inj h ▸ ⟨hcandidate, hadmits⟩
    · obtain ⟨fewer, moved, rfl, hadvance, h⟩ := exists_advance_of_advanceUntil hadmits h
      exact ih fewer (Nat.lt_succ_self fewer) (hstep candidate moved hcandidate hadmits hadvance) h

/-- A search returns no instant before its first candidate. -/
theorem le_of_advanceUntil {rounds : Nat}
    (h : term.advanceUntil plan since threshold rounds candidate = .ok result) :
    candidate ≤ result := by
  refine (of_advanceUntil (P := fun t => candidate ≤ t) (Nat.le_refl _) ?_ h).1
  rintro t u hle - hadvance
  exact DateTime.le_trans hle (DateTime.le_of_lt (Plan.lt_of_advance hadvance))

theorem searchBy_eq_ok_iff {bounds : Bounds} :
    term.searchBy plan since strict bounds = .ok result ↔
      ∃ first, plan.settle? plan.steps (Threshold.of since strict bounds.lower).start = some first ∧
        term.advanceUntil plan since (.of since strict bounds.lower) maxAdvances first
          = .ok result ∧
        ∀ upper ∈ bounds.upper, result < upper := by
  simp only [searchBy, searchWithin]
  cases plan.settle? plan.steps (Threshold.of since strict bounds.lower).start with
  | none => simp
  | some first =>
    simp only [bind_eq_ok_iff, Option.some.injEq, exists_eq_left']
    cases bounds.upper with
    | none => simp
    | some upper => simp [DateTime.not_le]

/-- The instant that the limit of a term on the given side stands for, if there is one, when every
search is given up after `cap` advances. -/
def boundOnWithin (term : Term) (cap : Nat) (since : DateTime) (defaultTime : TimeOfDay)
    (side : Side) : Except Failure (Option DateTime) :=
  match term.limit? side with
  | none => .ok none
  | some limit =>
    some <$> limit.orApply since defaultTime (limit.nextWithin cap since false defaultTime none)

/-- The instant that the limit of a term on the given side stands for, if there is one. -/
def boundOn (term : Term) (since : DateTime) (defaultTime : TimeOfDay) (side : Side) :
    Except Failure (Option DateTime) :=
  match term.limit? side with
  | none => .ok none
  | some limit => some <$> limit.instant since defaultTime

theorem boundsWithin_eq (term : Term) (cap : Nat) (since : DateTime) (defaultTime : TimeOfDay) :
    term.boundsWithin cap since defaultTime = (do
      return ⟨← term.boundOnWithin cap since defaultTime .lower,
        ← term.boundOnWithin cap since defaultTime .upper⟩) := by
  have hnone {side : Side} (h : term.limit? side = none) :
      term.boundOnWithin cap since defaultTime side = .ok none := by
    rw [boundOnWithin, h]
  have hsome {side : Side} {limit : Term} (h : term.limit? side = some limit) :
      term.boundOnWithin cap since defaultTime side = some <$>
        limit.orApply since defaultTime (limit.nextWithin cap since false defaultTime none) := by
    rw [boundOnWithin, h]
  unfold boundsWithin
  dsimp only
  congr 1
  · split
    · exact (hnone ‹_›).symm
    · exact (hsome ‹_›).symm
  · funext lower
    congr 1
    split
    · exact (hnone ‹_›).symm
    · exact (hsome ‹_›).symm

/-- The bounds of a term are the instants of its limits. -/
theorem bounds_eq (term : Term) (since : DateTime) (defaultTime : TimeOfDay) :
    term.bounds since defaultTime = (do
      return ⟨← term.boundOn since defaultTime .lower, ← term.boundOn since defaultTime .upper⟩) :=
  term.boundsWithin_eq maxAdvances since defaultTime

theorem bounds_of_unlimited (h : ∀ side, term.limiter? side = none) :
    term.bounds since defaultTime = .ok .none := by
  have hbound (side : Side) : term.boundOn since defaultTime side = .ok none := by
    rw [boundOn, limit?, h side]
  rw [bounds_eq, hbound, hbound]
  rfl

/-- Valid parts without limiters make an expression, seen from whenever. -/
theorem ofParts_of_unlimited {reference : DateTime} (hvalid : checkParts term.parts = .ok ())
    (hcontent : term.content ≠ []) (h : ∀ side, term.limiter? side = none) :
    ofParts term.parts reference defaultTime = .ok term :=
  ofParts_eq_ok_iff.2 ⟨rfl, checkParts_eq_ok_iff.1 hvalid, hcontent,
    fun side => checkSide_eq_ok_iff.2 (.inl (h side)), .none, bounds_of_unlimited h,
    by simp [Bounds.none]⟩

/-- The bounds that a search is held to: the given ones, or else the limits of the term. -/
def boundsFor (term : Term) (since : DateTime) (defaultTime : TimeOfDay) :
    Option Bounds → Except Failure Bounds
  | some given => .ok given
  | none => term.bounds since defaultTime

/-- Without limiters a search has no bounds but those given. -/
theorem boundsFor_of_unlimited (h : ∀ part ∈ term.parts, part.isLimiter = false)
    (bounds : Option Bounds) :
    term.boundsFor since defaultTime bounds = .ok (bounds.getD .none) := by
  cases bounds with
  | some given => rfl
  | none => exact bounds_of_unlimited (limiter?_eq_none h)

theorem next_eq_ofTerm_bind {bounds : Option Bounds} :
    term.next since strict defaultTime bounds = (Plan.ofTerm term defaultTime >>= fun plan =>
      term.boundsFor since defaultTime bounds >>= term.searchBy plan since strict) := by
  cases bounds <;> rfl

theorem next_eq_bind {bounds : Option Bounds} (hcontent : term.content ≠ []) :
    term.next since strict defaultTime bounds =
      (term.boundsFor since defaultTime bounds).bind
        (term.searchBy (.forTerm term defaultTime) since strict) := by
  rw [next_eq_ofTerm_bind, Plan.ofTerm_eq_ok_iff.2 ⟨hcontent, rfl⟩]
  rfl

theorem next_eq_ok_iff {bounds : Option Bounds} :
    term.next since strict defaultTime bounds = .ok result ↔
      term.content ≠ [] ∧ ∃ limits, term.boundsFor since defaultTime bounds = .ok limits ∧
        term.searchBy (.forTerm term defaultTime) since strict limits = .ok result := by
  by_cases hcontent : term.content = []
  · simp only [hcontent, ne_eq, not_true, false_and, iff_false]
    intro h
    obtain ⟨plan, hplan, -⟩ := bind_eq_ok_iff.1 h
    exact (Plan.ofTerm_eq_ok_iff.1 hplan).1 hcontent
  · rw [next_eq_bind hcontent]
    exact bind_eq_ok_iff.trans ⟨fun h => ⟨hcontent, h⟩, fun h => h.2⟩

section Strict

/-- A strict search without bounds advances the first candidate until it lies behind the start. -/
theorem next_of_settle? (hcontent : term.content ≠ [])
    (h : (Plan.forTerm term defaultTime).settle? (Plan.forTerm term defaultTime).steps since =
      some candidate) :
    term.next since true defaultTime (some .none) =
      term.advanceUntil (.forTerm term defaultTime) since ⟨since, true⟩ maxAdvances candidate := by
  rw [next_eq_bind hcontent]
  simp only [boundsFor, Except.bind, searchBy, searchWithin, Threshold.of, Bounds.none, h]
  exact bind_pure _

theorem next_of_settle?_eq_none (hcontent : term.content ≠ [])
    (h : (Plan.forTerm term defaultTime).settle? (Plan.forTerm term defaultTime).steps since =
      none) :
    term.next since true defaultTime (some .none) = .error (.expression
      (.outsideCalendar (Plan.faultOf (Plan.forTerm term defaultTime).steps since))) := by
  rw [next_eq_bind hcontent]
  simp only [boundsFor, Except.bind, searchBy, searchWithin, Threshold.of, Bounds.none, h]
  rfl

theorem admits_strict : (⟨since, true⟩ : Threshold).admits candidate = true ↔
    since < candidate := by
  simp [Threshold.admits]

end Strict

end Term

namespace Threshold

variable {since t : DateTime} {strict : Bool} {lower : Option DateTime}

theorem admits_iff {threshold : Threshold} : threshold.admits t = true ↔
    if threshold.strict then threshold.start < t else threshold.start ≤ t := by
  unfold admits
  split
  · exact decide_eq_true_iff
  · exact decide_eq_true_iff

/-- Whatever lies behind the start is late enough. -/
theorem admits_of_lt {threshold : Threshold} (h : threshold.start < t) :
    threshold.admits t = true := by
  rw [admits_iff]
  split
  · exact h
  · exact DateTime.le_of_lt h

theorem le_start_of_not_admits {threshold : Threshold} (h : ¬ threshold.admits t = true) :
    t ≤ threshold.start := DateTime.not_lt.1 (mt admits_of_lt h)

/-- An instant is late enough if it does not lie before `since`, nor on it when `since` is
excluded, nor before the lower bound. -/
theorem admits_of_iff : (Threshold.of since strict lower).admits t = true ↔
    since ≤ t ∧ (strict = true → since < t) ∧ ∀ bound ∈ lower, bound ≤ t := by
  have hsince : (⟨since, strict⟩ : Threshold).admits t = true ↔
      since ≤ t ∧ (strict = true → since < t) := by
    rw [admits_iff]
    cases strict with
    | false => exact ⟨fun h => ⟨h, by simp⟩, fun h => h.1⟩
    | true => exact ⟨fun h => ⟨DateTime.le_of_lt h, fun _ => h⟩, fun h => h.2 rfl⟩
  cases lower with
  | none => exact hsince.trans ⟨fun h => ⟨h.1, h.2, by simp⟩, fun h => ⟨h.1, h.2.1⟩⟩
  | some bound =>
    simp only [Threshold.of, Option.mem_some_iff, forall_eq']
    by_cases hlater : since < bound
    · rw [if_pos hlater, admits_iff]
      exact ⟨fun h => ⟨DateTime.le_of_lt (DateTime.lt_of_lt_of_le hlater h),
        fun _ => DateTime.lt_of_lt_of_le hlater h, h⟩, fun h => h.2.2⟩
    · rw [if_neg hlater, hsince]
      exact ⟨fun h => ⟨h.1, h.2, DateTime.le_trans (DateTime.not_lt.1 hlater) h.1⟩,
        fun h => ⟨h.1, h.2.1⟩⟩

end Threshold

end TimePhrase
