import TimePhrase.Proofs.Occurrence.Advance

/-!
# The search finds the least occurrence

A search for a term of points starts from an instant that no wanted occurrence precedes, and
advances to the next occurrence until it reaches a wanted one. The candidates lie on different
days, and the last unwanted one lies within little more than a year of the first, so the search
is never given up.
-/

namespace TimePhrase

open Plan

namespace Term

variable {term : Term} {defaultTime : TimeOfDay} {since t u first : DateTime} {strict : Bool}
  {threshold : Threshold}

namespace NamesPoints

theorem occursAt_first (h : term.NamesPoints)
    (hfirst : (forTerm term defaultTime).settle? (forTerm term defaultTime).steps t = some first) :
    term.OccursAt defaultTime first := by
  have hholds := holdsAt_of_settle? h.valid h.coherent.weekdays hfirst
  rw [h.steps_eq] at hfirst
  exact h.occursAt_of_settle? (List.nil_append _).symm h.ladder_ne_nil hfirst hholds

/-- The first candidate does not pass an occurrence from the start on. -/
theorem exists_first (h : term.NamesPoints) (hu : term.OccursAt defaultTime u) (hle : t ≤ u) :
    ∃ first, (forTerm term defaultTime).settle? (forTerm term defaultTime).steps t = some first ∧
      first ≤ u := by
  have hpairwise := h.valid.pairwise_above
  obtain ⟨m, hm, hmu⟩ := exists_applySteps_le term.points hpairwise (isOn hu)
    (DateTime.toDays_le_of_le hle) (by
      intro p hp hkind hfenced
      obtain ⟨rest, hladder⟩ := List.head?_eq_some_iff.1 hp
      exact absurd hkind (kind_ne_weekday_of_fenced h.valid hladder hfenced))
  have hholds :=
    holdsAt_setDefaultTime_of_applySteps h.valid h.coherent.weekdays defaultTime hm
  have hsettle := settle?_eq_some_iff.2 ⟨m, hm, realign?_eq_self hholds⟩
  rw [← h.steps_eq] at hsettle
  have hoccurs := h.occursAt_first hsettle
  refine ⟨_, hsettle, (hoccurs.le_iff hu).2 ?_⟩
  rwa [date_setDefaultTime]

theorem toDays_le_of_applySteps_lag {all rest : List Point} {p : Point} {m : DateTime}
    (hladder : (p :: rest).Pairwise Point.Above)
    (hpoints : ∀ q ∈ p :: rest, q.WeekdayExists ∧ q.isAbsolute = false)
    (h : applySteps ((p :: rest).map (Step.ofPoint all)) t = some m) :
    t.date.toDays ≤ m.date.toDays + p.lag := by
  induction rest generalizing p t with
  | nil =>
    obtain ⟨moved, hmoved, hpass⟩ := Option.bind_eq_some_iff.1 h
    obtain rfl : moved = m := Option.some.inj hpass
    obtain ⟨hp, hfixed⟩ := hpoints p (List.mem_cons_self ..)
    exact (Point.toDays_le_of_moveTo? hp hfixed hmoved).1
  | cons q rest ih =>
    obtain ⟨moved, hmoved, hpass⟩ := Option.bind_eq_some_iff.1 h
    obtain ⟨habove, hrest⟩ := List.pairwise_cons.1 hladder
    obtain ⟨hp, hfixed⟩ := hpoints p (List.mem_cons_self ..)
    have hstep := (Point.toDays_le_of_moveTo? hp hfixed hmoved).2 q (habove q (List.mem_cons_self ..))
    have hbelow := ih hrest (fun r hr => hpoints r (List.mem_cons_of_mem _ hr)) hpass
    omega

/-- An occurrence before the start of a search lies less than 500 days behind the first
candidate. -/
theorem toDays_lt_of_le_start (h : term.NamesPoints)
    (hfirst : (forTerm term defaultTime).settle? (forTerm term defaultTime).steps t = some first)
    (hu : term.OccursAt defaultTime u) (hle : u ≤ t) :
    u.date.toDays < first.date.toDays + maxAdvances := by
  have hoccurs := h.occursAt_first hfirst
  have hle := DateTime.toDays_le_of_le hle
  by_cases hfixed : ∃ p ∈ term.ladder, p.isAbsolute = true
  · obtain ⟨p, hp, hfixed⟩ := hfixed
    have hyear : u.date.year = first.date.year :=
      Point.year_eq_of_isAbsolute hfixed (isOn hu p hp) (isOn hoccurs p hp)
    have hdays := Date.toDays_le_of_year_eq hyear
    unfold maxAdvances
    omega
  · obtain ⟨m, hm, hrealign⟩ := settle?_eq_some_iff.1 hfirst
    have hpairwise := h.valid.pairwise_above
    rw [h.steps_eq] at hm
    have hholds :=
      holdsAt_setDefaultTime_of_applySteps h.valid h.coherent.weekdays defaultTime hm
    have hdate : first.date = m.date := by
      rw [realign?_eq_self hholds] at hrealign
      rw [← Option.some.inj hrealign, date_setDefaultTime]
    obtain ⟨p, rest, hladder⟩ := List.exists_cons_of_ne_nil h.ladder_ne_nil
    have hpoints : ∀ q ∈ term.ladder, q.WeekdayExists ∧ q.isAbsolute = false := fun q hq =>
      ⟨h.coherent.weekdays q hq, by simpa using fun hfix => hfixed ⟨q, hq, hfix⟩⟩
    rw [hladder] at hm hpoints hpairwise
    have hlag := toDays_le_of_applySteps_lag hpairwise hpoints hm
    have hbound := p.lag_le
    unfold maxAdvances
    rw [hdate]
    omega

/-- Advancing a candidate ends with the least wanted occurrence, if there is one. -/
theorem advanceUntil_spec {rounds : Nat} {c : DateTime} {text : String} (h : term.NamesPoints)
    (htext : term.describe = .ok text) (since : DateTime) (hc : term.OccursAt defaultTime c)
    (hleast : ∀ u, term.OccursAt defaultTime u → threshold.admits u = true → c ≤ u)
    (hrounds : ∀ u, term.OccursAt defaultTime u → ¬ threshold.admits u = true →
      u.date.toDays < c.date.toDays + rounds) :
    (∃ r, term.advanceUntil (forTerm term defaultTime) since threshold rounds c = .ok r ∧
      term.OccursAt defaultTime r ∧ threshold.admits r = true ∧
      ∀ u, term.OccursAt defaultTime u → threshold.admits u = true → r ≤ u) ∨
    (term.advanceUntil (forTerm term defaultTime) since threshold rounds c
        = .error (.expression (.neverOccurs text since)) ∧
      ∀ u, term.OccursAt defaultTime u → ¬ threshold.admits u = true) := by
  induction rounds generalizing c with
  | zero =>
    by_cases hadmits : threshold.admits c = true
    · exact Or.inl ⟨c, advanceUntil_of_admits _ hadmits, hc, hadmits, hleast⟩
    · have := hrounds c hc hadmits
      omega
  | succ rounds ih =>
    by_cases hadmits : threshold.admits c = true
    · exact Or.inl ⟨c, advanceUntil_of_admits _ hadmits, hc, hadmits, hleast⟩
    have hlater : ∀ u, term.OccursAt defaultTime u → threshold.admits u = true → c < u := by
      intro u hu hwanted
      refine DateTime.not_le.1 fun huc => hadmits ?_
      rwa [DateTime.le_antisymm (hleast u hu hwanted) huc]
    obtain ⟨next, hadvance, hoccurs, hnext⟩ := h.advance_spec hc
    rw [advanceUntil, if_neg hadmits, hadvance, ok_bind]
    cases next with
    | none =>
      refine Or.inr ⟨by rw [htext]; rfl, fun u hu hwanted => ?_⟩
      obtain ⟨m, hm, -⟩ := hnext u hu (hlater u hu hwanted)
      cases hm
    | some m =>
      obtain ⟨hm, hcm⟩ := hoccurs m rfl
      have hdays := (hc.lt_iff hm).1 hcm
      refine ih hm (fun u hu hwanted => ?_) fun u hu hunwanted => ?_
      · obtain ⟨m', ⟨⟩, hle⟩ := hnext u hu (hlater u hu hwanted)
        exact hle
      · have := hrounds u hu hunwanted
        omega

end NamesPoints

/-- The instant is an occurrence of a term of points, late enough for a search. -/
def OccursFrom (term : Term) (defaultTime : TimeOfDay) (since : DateTime) (strict : Bool)
    (lower : Option DateTime) (t : DateTime) : Prop :=
  term.OccursAt defaultTime t ∧ since ≤ t ∧ (strict = true → since < t) ∧
    ∀ bound ∈ lower, bound ≤ t

/-- The instant is the least occurrence that is late enough. -/
def IsNext (term : Term) (defaultTime : TimeOfDay) (since : DateTime) (strict : Bool)
    (lower : Option DateTime) (t : DateTime) : Prop :=
  term.OccursFrom defaultTime since strict lower t ∧
    ∀ u, term.OccursFrom defaultTime since strict lower u → t ≤ u

/-- What a search answers with when the least wanted occurrence is known. -/
def answer (upper : Option DateTime) (t : DateTime) : Except Failure DateTime :=
  match upper with
  | some upper => if t < upper then .ok t else .error (.expression (.pastBound t upper))
  | none => .ok t

/-- A search finds the least wanted occurrence, or else there is none. -/
theorem NamesPoints.searchBy_spec {text : String} (h : term.NamesPoints)
    (htext : term.describe = .ok text) (since : DateTime) (strict : Bool)
    (defaultTime : TimeOfDay) (bounds : Bounds) :
    (∃ t, term.IsNext defaultTime since strict bounds.lower t ∧
      term.searchBy (forTerm term defaultTime) since strict bounds = answer bounds.upper t) ∨
    ((∀ t, ¬ term.OccursFrom defaultTime since strict bounds.lower t) ∧
      ∃ error, term.searchBy (forTerm term defaultTime) since strict bounds
          = .error (.expression error) ∧ error.kind = .noFutureOccurrence) := by
  have hstart {u : DateTime} (hadmits : (Threshold.of since strict bounds.lower).admits u = true) :
      (Threshold.of since strict bounds.lower).start ≤ u := by
    rw [Threshold.admits_iff] at hadmits
    split at hadmits
    · exact DateTime.le_of_lt hadmits
    · exact hadmits
  simp only [searchBy, searchWithin, IsNext, OccursFrom, ← Threshold.admits_of_iff]
  cases hfirst : (forTerm term defaultTime).settle? (forTerm term defaultTime).steps
      (Threshold.of since strict bounds.lower).start with
  | none =>
    refine Or.inr ⟨fun t ht => ?_, _, rfl, rfl⟩
    obtain ⟨first, hsome, -⟩ := h.exists_first ht.1 (hstart ht.2)
    simp [hfirst] at hsome
  | some first =>
    have hleast : ∀ u, term.OccursAt defaultTime u →
        (Threshold.of since strict bounds.lower).admits u = true → first ≤ u := by
      intro u hu hadmits
      obtain ⟨first', hsome, hle⟩ := h.exists_first hu (hstart hadmits)
      rwa [Option.some.inj (hfirst.symm.trans hsome)]
    rcases h.advanceUntil_spec htext since (h.occursAt_first hfirst) hleast
      (fun u hu hnot => h.toDays_lt_of_le_start hfirst hu (Threshold.le_start_of_not_admits hnot)) with
      ⟨t, hsearch, ht, hadmits, htleast⟩ | ⟨hsearch, hnone⟩
    · refine Or.inl ⟨t, ⟨⟨ht, hadmits⟩, fun u hu => htleast u hu.1 hu.2⟩, ?_⟩
      simp only [hsearch, ok_bind, answer, pure_eq_ok, refuse]
      cases bounds.upper with
      | none => rfl
      | some upper => by_cases hpast : upper ≤ t <;> simp [hpast, ← DateTime.not_le]
    · refine Or.inr ⟨fun t ht => hnone t ht.1 ht.2, .neverOccurs text since, ?_, rfl⟩
      simp only [hsearch]
      rfl

theorem IsNext.unique {lower : Option DateTime} (ht : term.IsNext defaultTime since strict lower t)
    (hu : term.IsNext defaultTime since strict lower u) : t = u :=
  DateTime.le_antisymm (ht.2 u hu.1) (hu.2 t ht.1)

theorem namesPoints_ofPoints {points : List Point} (hpoints : points ≠ [])
    (hrange : ∀ p ∈ points, p.InRange) (hvalid : checkParts (ofPoints points).parts = .ok ()) :
    (ofPoints points).NamesPoints where
  content := by simpa using hpoints
  spans := spans_ofPoints points
  valid := checkParts_eq_ok_iff.1 hvalid
  range p hp := hrange p (by simpa using mem_points.2 hp)

theorem exists_describe_ofPoints {points : List Point} (hrange : ∀ p ∈ points, p.InRange) :
    ∃ text, (ofPoints points).describe = .ok text := by
  have hparts : ∀ part ∈ (ofPoints points).parts, ∃ text, part.describe = .ok text := by
    intro part hpart
    obtain ⟨p, hp, rfl⟩ := List.mem_map.1 hpart
    exact Part.InRange.exists_describe (.content (hrange p hp))
  obtain ⟨texts, htexts⟩ := exists_describeAll hparts
  exact ⟨_, by rw [describe, htexts]; rfl⟩

/-- Without limiters a search has no bounds of its own. -/
theorem boundsFor_ofPoints (points : List Point) (bounds : Option Bounds) :
    (ofPoints points).boundsFor since defaultTime bounds = .ok (bounds.getD .none) := by
  refine boundsFor_of_unlimited (fun part hpart => ?_) bounds
  obtain ⟨p, -, rfl⟩ := List.mem_map.1 hpart
  rfl

/-- The next occurrence of a term of points is the least occurrence that is late enough. Where an
upper bound rules it out, it is reported along with the bound, and there is no future occurrence
exactly if there is no such instant. -/
theorem next_isNext {points : List Point} (hpoints : points ≠ [])
    (hrange : ∀ p ∈ points, p.InRange) (hvalid : checkParts (ofPoints points).parts = .ok ())
    (since : DateTime) (strict : Bool) (defaultTime : TimeOfDay) (bounds : Option Bounds) :
    (∀ t, (ofPoints points).IsNext defaultTime since strict (bounds.getD .none).lower t →
      (ofPoints points).next since strict defaultTime bounds
        = answer (bounds.getD .none).upper t) ∧
    ((∃ error, (ofPoints points).next since strict defaultTime bounds
        = .error (.expression error) ∧ error.kind = .noFutureOccurrence) ↔
      ¬ ∃ t, (ofPoints points).IsNext defaultTime since strict (bounds.getD .none).lower t) := by
  have h := namesPoints_ofPoints hpoints hrange hvalid
  obtain ⟨text, htext⟩ := exists_describe_ofPoints hrange
  have hnext : (ofPoints points).next since strict defaultTime bounds =
      (ofPoints points).searchBy (forTerm (ofPoints points) defaultTime) since strict
        (bounds.getD .none) := by
    rw [next_eq_bind h.content, boundsFor_ofPoints]
    rfl
  rw [hnext]
  rcases h.searchBy_spec htext since strict defaultTime (bounds.getD .none) with
    ⟨t, ht, hsearch⟩ | ⟨hnone, error, hsearch, hkind⟩
  · refine ⟨fun u hu => by rw [hsearch, ht.unique hu], ?_, fun hnone => absurd ⟨t, ht⟩ hnone⟩
    rintro ⟨error, herror, hkind⟩ -
    rw [hsearch] at herror
    unfold answer at herror
    split at herror
    · split at herror
      · exact absurd herror nofun
      · cases herror
        exact absurd hkind nofun
    · exact absurd herror nofun
  · exact ⟨fun t ht => absurd ht.1 (hnone t), fun _ ⟨t, ht⟩ => hnone t ht.1,
      fun _ => ⟨error, hsearch, hkind⟩⟩

/-- After noon on the last day of January 2024, the next end of a month is that of February. -/
theorem next_isNext_monthEnd : (ofPoints [.monthDay 31 true, .time ⟨12, 0⟩ false]).IsNext .midnight
    ⟨⟨2024, 1, 31, by decide⟩, 12, 0, 0, 0⟩ true none ⟨⟨2024, 2, 29, by decide⟩, 12, 0, 0, 0⟩ := by
  obtain ⟨hfound, hnone⟩ := @next_isNext [.monthDay 31 true, .time ⟨12, 0⟩ false]
    (by decide) (by decide) (by decide +kernel) ⟨⟨2024, 1, 31, by decide⟩, 12, 0, 0, 0⟩ true
    .midnight none
  have hnext : (ofPoints [.monthDay 31 true, .time ⟨12, 0⟩ false]).next
      ⟨⟨2024, 1, 31, by decide⟩, 12, 0, 0, 0⟩ true .midnight none
      = .ok ⟨⟨2024, 2, 29, by decide⟩, 12, 0, 0, 0⟩ := by decide +kernel
  rw [hnext] at hfound hnone
  have hexists := Classical.not_not.1 (mt hnone.2 (by rintro ⟨error, herror, -⟩; cases herror))
  obtain ⟨t, ht⟩ := hexists
  obtain rfl := Except.ok.inj (hfound t ht)
  exact ht

end Term

end TimePhrase
