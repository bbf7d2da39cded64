import TimePhrase.Schedule
import TimePhrase.Proofs.Reading.WellFormed

/-!
# Evaluating what has been read

A reading can be evaluated, from whatever instant on: it has a description, and the attempts to
settle it as a schedule, to ask that schedule for its next occurrence or to put it off once give
an instant or end for one of two reasons. Either there is no future occurrence within the
calendar, or the upper limit rules it out.
-/

namespace TimePhrase

/-- The fault lies in the time asked for: there is no future occurrence, or the upper bound rules
it out. -/
def ExpressionError.IsUntimely (error : ExpressionError) : Prop :=
  error.kind = .noFutureOccurrence ∨ error.kind = .boundExceeded

/-- The evaluation gives a value, unless the time asked for is at fault. -/
def Evaluates {α : Type} (x : Except Failure α) : Prop :=
  ∀ failure, x = .error failure → ∃ error, failure = .expression error ∧ error.IsUntimely

section Steps

variable {α β : Type} {x : Except Failure α}

theorem evaluates_ok (a : α) : Evaluates (.ok a : Except Failure α) := by
  intro failure h
  cases h

theorem evaluates_refuse {error : ExpressionError} (h : error.IsUntimely) :
    Evaluates (refuse error : Except Failure α) := by
  intro failure hfailure
  exact ⟨error, (Except.error.inj hfailure).symm, h⟩

theorem Evaluates.bind {f : α → Except Failure β} (hx : Evaluates x)
    (hf : ∀ a, x = .ok a → Evaluates (f a)) : Evaluates (x >>= f) := by
  intro failure h
  rcases bind_eq_error_iff.1 h with h | ⟨a, ha, h⟩
  · exact hx failure h
  · exact hf a ha failure h

/-- A refusal that names the expression. -/
theorem evaluates_named_refuse {description : Except Undescribed String}
    {error : String → ExpressionError}
    (hdescription : ∃ text, description = .ok text) (herror : ∀ text, (error text).IsUntimely) :
    Evaluates (named description >>= fun text => (refuse (error text) : Except Failure α)) := by
  obtain ⟨text, rfl⟩ := hdescription
  exact evaluates_refuse (herror text)

end Steps

/-- A term whose searches can be run: it has content, and its numbers exist. -/
structure Term.Evaluable (term : Term) : Prop where
  content : term.content ≠ []
  parts : ∀ p ∈ term.parts, p.InRange

namespace Term

variable {term : Term} {since : DateTime} {strict : Bool} {defaultTime : TimeOfDay}

namespace Evaluable

theorem ofTerm (h : term.Evaluable) :
    Plan.ofTerm term defaultTime = .ok (.forTerm term defaultTime) :=
  Plan.ofTerm_eq_ok_iff.2 ⟨h.content, rfl⟩

theorem advanceUntil (h : term.Evaluable) (threshold : Threshold) (rounds : Nat) (t : DateTime) :
    Evaluates (term.advanceUntil (.forTerm term defaultTime) since threshold rounds t) := by
  have hdescribe := exists_describe h.parts
  induction rounds generalizing t with
  | zero =>
    rw [Term.advanceUntil]
    split
    · exact evaluates_ok t
    · exact evaluates_named_refuse hdescribe fun _ => Or.inl rfl
  | succ rounds ih =>
    obtain ⟨moved, hmoved⟩ : ∃ moved, (Plan.forTerm term defaultTime).advance t = .ok moved :=
      Plan.exists_advance h.parts t
    rw [Term.advanceUntil]
    split
    · exact evaluates_ok t
    · rw [hmoved, ok_bind]
      cases moved with
      | none => exact evaluates_named_refuse hdescribe fun _ => Or.inl rfl
      | some next => exact ih next

theorem searchBy (h : term.Evaluable) (bounds : Bounds) :
    Evaluates (term.searchBy (.forTerm term defaultTime) since strict bounds) := by
  simp only [Term.searchBy, Term.searchWithin]
  split
  · exact evaluates_refuse (Or.inl rfl)
  · refine (h.advanceUntil _ _ _).bind fun result _ => ?_
    split
    · split
      · exact evaluates_refuse (Or.inr rfl)
      · exact evaluates_ok result
    · exact evaluates_ok result

theorem next (h : term.Evaluable) {bounds : Option Bounds}
    (hbounds : Evaluates (term.boundsFor since defaultTime bounds)) :
    Evaluates (term.next since strict defaultTime bounds) := by
  rw [next_eq_bind h.content]
  exact hbounds.bind fun limits _ => h.searchBy limits

/-- A term without limits of its own stands for an instant. -/
theorem instant (h : term.Evaluable) (hlimits : ∀ side, term.limit? side = none) :
    Evaluates (term.instant since defaultTime) := by
  have hbound (side : Side) : term.boundOn since defaultTime side = .ok none := by
    rw [boundOn, hlimits side]
  have hbounds : Evaluates (term.boundsFor since defaultTime none) := by
    rw [boundsFor, bounds_eq, hbound, hbound]
    exact evaluates_ok _
  have hnext : Evaluates (term.next since false defaultTime none) := h.next hbounds
  rw [Term.instant]
  generalize term.next since false defaultTime none = result at hnext
  cases result with
  | ok t => exact evaluates_ok t
  | error failure =>
    obtain ⟨error, rfl, huntimely⟩ := hnext failure rfl
    simp only [orApply]
    split
    · rw [apply, h.ofTerm, ok_bind]
      split
      · exact evaluates_ok _
      · exact evaluates_refuse (Or.inl rfl)
    · exact evaluates_refuse huntimely

end Evaluable

/-- The limits of the term can be evaluated and have no limits themselves. -/
def PlainLimits (term : Term) : Prop :=
  ∀ side limit, term.limit? side = some limit →
    limit.Evaluable ∧ ∀ side, limit.limit? side = none

theorem PlainLimits.bounds (h : term.PlainLimits) :
    Evaluates (term.bounds since defaultTime) := by
  have hbound (side : Side) : Evaluates (term.boundOn since defaultTime side) := by
    unfold boundOn
    split
    · exact evaluates_ok none
    · rename_i limit hlimit
      obtain ⟨hevaluable, hnone⟩ := h side limit hlimit
      exact (hevaluable.instant hnone).bind fun t _ => evaluates_ok (some t)
  rw [bounds_eq]
  exact (hbound .lower).bind fun lower _ => (hbound .upper).bind fun upper _ =>
    evaluates_ok (⟨lower, upper⟩ : Bounds)

end Term

/-- Schedules are made of evaluable terms with plain limits, and asked for their occurrences. -/
theorem Term.Evaluable.schedule {term : Term} (h : term.Evaluable) (hlimits : term.PlainLimits)
    (since : DateTime) (defaultTime : TimeOfDay) :
    Evaluates (Schedule.ofTerm term since defaultTime) ∧
      ∀ schedule, Schedule.ofTerm term since defaultTime = .ok schedule →
        schedule.term = term ∧ ∀ query, Evaluates (schedule.next query) := by
  have hrepeated (bounds : Bounds) (query : DateTime) :
      Evaluates (Repeated.next ⟨term, defaultTime, bounds⟩ query) := h.next (evaluates_ok bounds)
  have hoften : Evaluates (Repeated.ofTerm term since defaultTime) :=
    hlimits.bounds.bind fun bounds _ => evaluates_ok (⟨term, defaultTime, bounds⟩ : Repeated)
  have hunbounded : Evaluates (term.boundsFor since defaultTime (some .none)) :=
    evaluates_ok Bounds.none
  have honce : Evaluates (OneTime.ofTerm term since defaultTime) :=
    (h.next hunbounded).bind fun time _ => evaluates_ok (⟨term, time⟩ : OneTime)
  unfold Schedule.ofTerm
  split
  · constructor
    · refine hoften.bind fun schedule hschedule => ?_
      obtain ⟨bounds, -, hschedule⟩ := bind_eq_ok_iff.1 hschedule
      obtain rfl := Except.ok.inj hschedule
      exact (hrepeated bounds since).bind fun _ _ => evaluates_ok _
    · intro schedule hschedule
      obtain ⟨repeated, hmade, hschedule⟩ := bind_eq_ok_iff.1 hschedule
      obtain ⟨first, -, hschedule⟩ := bind_eq_ok_iff.1 hschedule
      obtain ⟨bounds, -, hmade⟩ := bind_eq_ok_iff.1 hmade
      obtain rfl := Except.ok.inj hmade
      obtain rfl := Except.ok.inj hschedule
      exact ⟨rfl, hrepeated bounds⟩
  · constructor
    · exact honce.bind fun once _ => evaluates_ok (Schedule.once once)
    · intro schedule hschedule
      obtain ⟨once, hmade, hschedule⟩ := bind_eq_ok_iff.1 hschedule
      obtain ⟨time, -, hmade⟩ := bind_eq_ok_iff.1 hmade
      obtain rfl := Except.ok.inj hmade
      obtain rfl := Except.ok.inj hschedule
      refine ⟨rfl, fun query => ?_⟩
      simp only [Schedule.next, OneTime.next]
      split
      · exact evaluates_named_refuse (Term.exists_describe h.parts) fun _ => Or.inl rfl
      · exact evaluates_ok time

section Readings

variable {reader : Reader} {t : Term}

/-- Content after the rules can be evaluated as a limit. -/
theorem WellFormedContent.evaluable {content : List Content} (h : WellFormedContent content) :
    (⟨content.map .content⟩ : Term).Evaluable ∧
      ∀ side, (⟨content.map .content⟩ : Term).limit? side = none := by
  refine ⟨⟨?_, fun p hp => ?_⟩, Term.limit?_eq_none fun p hp => ?_⟩
  · rw [Term.content, contents_map_content]
    exact h.nonempty
  · obtain ⟨c, hc, rfl⟩ := List.mem_map.1 hp
    exact .content (h.inRange c hc)
  · obtain ⟨c, -, rfl⟩ := List.mem_map.1 hp
    rfl

/-- An expression made after the rules can be evaluated, and so can its limits. -/
theorem Term.WellFormed.evaluable {now : DateTime} {defaultTime : TimeOfDay}
    (h : t.WellFormed now defaultTime) : t.Evaluable ∧ t.PlainLimits := by
  obtain ⟨limits, h⟩ := h
  have hlimit {p : Part} (hp : p ∈ limits.map fun limit =>
      Part.limiter limit.1 (some (limit.2.map .content))) :
      ∃ side content, p = .limiter side (some (content.map .content)) ∧
        WellFormedContent content := by
    obtain ⟨limit, hlimit, rfl⟩ := List.mem_map.1 hp
    exact ⟨limit.1, limit.2, rfl, (h.eachLimit limit hlimit).1⟩
  refine ⟨⟨h.content.nonempty, fun p hp => ?_⟩, fun side inner hinner => ?_⟩
  · rw [h.parts] at hp
    rcases List.mem_append.1 hp with hp | hp
    · obtain ⟨c, hc, rfl⟩ := List.mem_map.1 hp
      exact .content (h.content.inRange c hc)
    · obtain ⟨side, content, rfl, hrules⟩ := hlimit hp
      exact .limit hrules.evaluable.1.parts
  · unfold Term.limit? at hinner
    split at hinner
    · rename_i side' found hlimiter
      obtain ⟨parts, rfl, rfl⟩ := Option.map_eq_some_iff.1 hinner
      have hmem := List.mem_of_find?_eq_some hlimiter
      rw [h.parts] at hmem
      rcases List.mem_append.1 hmem with hmem | hmem
      · obtain ⟨c, -, hc⟩ := List.mem_map.1 hmem
        cases hc
      · obtain ⟨side, content, hsame, hrules⟩ := hlimit hmem
        cases hsame
        exact hrules.evaluable
    · cases hinner

/-- A schedule whose expression has a description can be written down. -/
theorem Schedule.exists_toDict (schedule : Schedule)
    (h : ∃ text, schedule.term.describe = .ok text) : ∃ fields, schedule.toDict = .ok fields := by
  obtain ⟨text, htext⟩ := h
  cases schedule <;> exact ⟨_, by rw [toDict, htext]; rfl⟩

/-- Every reading can be evaluated, from any instant on and with whatever counts. It has a
description, and putting it off once gives an instant unless the time asked for is at fault. So
do its schedule, which is one of this very reading and can be written down, and every query of the
schedule. -/
theorem Reader.read_evaluates {text : String} {readings : List Term}
    (h : reader.read text = .ok readings) (ht : t ∈ readings) (since : DateTime) :
    (∃ description, t.describe = .ok description) ∧
      Evaluates (t.snooze since reader.defaultTime) ∧
      Evaluates (Schedule.ofTerm t since reader.defaultTime) ∧
      ∀ schedule, Schedule.ofTerm t since reader.defaultTime = .ok schedule →
        schedule.term = t ∧ (∃ fields, schedule.toDict = .ok fields) ∧
          ∀ query, Evaluates (schedule.next query) := by
  obtain ⟨hevaluable, hlimits⟩ :=
    (wellFormed_of_mem_readingsOf (Reader.mem_readingsOf_of_read h ht)).evaluable
  have hunbounded : Evaluates (t.boundsFor since reader.defaultTime (some .none)) :=
    evaluates_ok Bounds.none
  obtain ⟨hmade, hqueries⟩ := hevaluable.schedule hlimits since reader.defaultTime
  have hdescribe := Term.exists_describe hevaluable.parts
  refine ⟨hdescribe, hevaluable.next hunbounded, hmade, fun schedule hschedule => ?_⟩
  obtain ⟨rfl, hnext⟩ := hqueries schedule hschedule
  exact ⟨rfl, schedule.exists_toDict hdescribe, hnext⟩

/-- A count that leads far out of the calendar is read like any other, and can be evaluated. -/
theorem Reader.read_evaluates_farAway :
    let reader : Reader := ⟨.german, ⟨⟨2024, 2, 29, by decide⟩, 9, 30, 0, 0⟩, .midnight⟩
    let text := "alle 123456789012345678901234567890 Wochen bis 5.5.2030"
    ∃ readings, reader.read text = .ok readings ∧ ∃ t ∈ readings,
      (∃ description, t.describe = .ok description) ∧
        Evaluates (t.snooze reader.now reader.defaultTime) ∧
        Evaluates (Schedule.ofTerm t reader.now reader.defaultTime) ∧
        ∀ schedule, Schedule.ofTerm t reader.now reader.defaultTime = .ok schedule →
          schedule.term = t ∧ (∃ fields, schedule.toDict = .ok fields) ∧
          ∀ query, Evaluates (schedule.next query) := by
  intro reader text
  have hread : (reader.read text).toOption.any (!·.isEmpty) = true := by decide +kernel
  obtain ⟨readings, hresult, hsome⟩ := exists_eq_ok_of_any hread
  cases readings with
  | nil => cases hsome
  | cons t rest =>
    have ht : t ∈ t :: rest := List.mem_cons_self ..
    exact ⟨t :: rest, hresult, t, ht, Reader.read_evaluates hresult ht reader.now⟩

end Readings

end TimePhrase
