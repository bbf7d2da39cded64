import TimePhrase.Proofs.Occurrence.Search
import TimePhrase.Proofs.Part.Range

/-!
# Expressions in range are only refused

Checks and searches can fail for reasons that are no fault of an expression: a part without a
name, a span without counts. For parts in range none of these occurs, so that every failure is a
refusal that the author of the expression is told about, and one of what the expression means: no
check says that a text cannot be read.
-/

namespace TimePhrase

/-- Every failure is a fault of the expression other than that it cannot be read. -/
def OnlyRefuses {α : Type} (x : Except Failure α) : Prop :=
  ∀ failure, x = .error failure → ∃ error, failure = .expression error ∧ error.kind ≠ .unparsable

/-- Every failure is a fault of the expression, and of the given kind. -/
def RefusesAs {α : Type} (kind : ErrorKind) (x : Except Failure α) : Prop :=
  ∀ failure, x = .error failure → ∃ error, failure = .expression error ∧ error.kind = kind

section Steps

variable {α β : Type} {x : Except Failure α}

theorem onlyRefuses_ok (a : α) : OnlyRefuses (.ok a : Except Failure α) := nofun

theorem onlyRefuses_refuse {error : ExpressionError} (hkind : error.kind ≠ .unparsable) :
    OnlyRefuses (refuse error : Except Failure α) := by
  intro failure h
  exact ⟨error, (Except.error.inj h).symm, hkind⟩

theorem onlyRefuses_named {description : Except Undescribed String} (h : ∃ text, description = .ok text) :
    OnlyRefuses (named description) := by
  obtain ⟨text, rfl⟩ := h
  exact onlyRefuses_ok text

theorem OnlyRefuses.bind {f : α → Except Failure β} (hx : OnlyRefuses x)
    (hf : ∀ a, x = .ok a → OnlyRefuses (f a)) : OnlyRefuses (x >>= f) := by
  intro failure h
  rcases bind_eq_error_iff.1 h with h | ⟨a, ha, h⟩
  · exact hx failure h
  · exact hf a ha failure h

/-- A refusal that names a part of the expression. -/
theorem onlyRefuses_named_refuse {description : Except Undescribed String} {error : String → ExpressionError}
    (h : ∃ text, description = .ok text) (hkind : ∀ text, (error text).kind ≠ .unparsable) :
    OnlyRefuses (named description >>= fun text => (refuse (error text) : Except Failure α)) :=
  (onlyRefuses_named h).bind fun text _ => onlyRefuses_refuse (hkind text)

theorem OnlyRefuses.ite {c : Prop} [Decidable c] {y : Except Failure α} (hx : c → OnlyRefuses x)
    (hy : ¬ c → OnlyRefuses y) : OnlyRefuses (if c then x else y) := by
  split
  · exact hx ‹_›
  · exact hy ‹_›

variable {kind : ErrorKind}

theorem RefusesAs.onlyRefuses (h : RefusesAs kind x) (hkind : kind ≠ .unparsable) :
    OnlyRefuses x := by
  intro failure hfailed
  obtain ⟨error, herror, rfl⟩ := h failure hfailed
  exact ⟨error, herror, hkind⟩

theorem refusesAs_ok (a : α) : RefusesAs kind (.ok a : Except Failure α) := nofun

/-- A refusal that names a part of the expression, whichever part it is. -/
theorem refusesAs_named_refuse {description : Except Undescribed String} {error : String → ExpressionError}
    (h : ∃ text, description = .ok text) (hkind : ∀ text, (error text).kind = kind) :
    RefusesAs kind
      (named description >>= fun text => (refuse (error text) : Except Failure α)) := by
  obtain ⟨text, rfl⟩ := h
  intro failure hfailed
  exact ⟨error text, (Except.error.inj hfailed).symm, hkind text⟩

theorem RefusesAs.ite {c : Prop} [Decidable c] {y : Except Failure α} (hx : c → RefusesAs kind x)
    (hy : ¬ c → RefusesAs kind y) : RefusesAs kind (if c then x else y) := by
  split
  · exact hx ‹_›
  · exact hy ‹_›

end Steps

section Checks

variable {content : List Content} {parts : List Part}

theorem mem_contents {c : Content} : c ∈ contents parts ↔ .content c ∈ parts := by
  simp only [contents, List.mem_filterMap]
  constructor
  · rintro ⟨part, hpart, hc⟩
    cases part with
    | content d => exact Option.some.inj hc ▸ hpart
    | limiter side limit => cases hc
  · intro hc
    exact ⟨_, hc, rfl⟩

theorem inRange_of_mem_contents (h : ∀ part ∈ parts, part.InRange) {c : Content}
    (hc : c ∈ contents parts) : c.InRange := by
  cases h _ (mem_contents.1 hc) with
  | content hc => exact hc

theorem refusesAs_checkScopes {settled : Scope} (h : ∀ c ∈ content, c.InRange) :
    RefusesAs .incompatibleScope (checkScopes settled content) := by
  induction content generalizing settled with
  | nil => exact refusesAs_ok ()
  | cons c rest ih =>
    have hrest := fun settled => @ih settled fun d hd => h d (List.mem_cons_of_mem _ hd)
    rw [checkScopes]
    split
    · exact refusesAs_named_refuse (Content.exists_describe (h c (List.mem_cons_self ..)))
        fun _ => rfl
    · exact hrest _

theorem refusesAs_checkRepetition (h : ∀ c ∈ content, c.InRange) :
    RefusesAs .absoluteLoop (checkRepetition content) := by
  unfold checkRepetition
  split
  · rename_i fixed hfixed
    refine .ite (fun _ => ?_) fun _ => refusesAs_ok ()
    exact refusesAs_named_refuse
      (Content.exists_describe (h fixed (List.mem_of_find?_eq_some hfixed))) fun _ => rfl
  · exact refusesAs_ok ()

theorem refusesAs_checkFixedDate (h : ∀ c ∈ content, c.InRange) :
    RefusesAs .incompatibleScope (checkFixedDate content) := by
  unfold checkFixedDate
  refine .ite (fun _ => ?_) fun _ => refusesAs_ok ()
  split
  · rename_i other hother
    exact refusesAs_named_refuse
      (Content.exists_describe (h other (List.mem_of_find?_eq_some hother))) fun _ => rfl
  · exact refusesAs_ok ()

theorem onlyRefuses_checkLimiters : OnlyRefuses (checkLimiters parts) := by
  simp only [checkLimiters, refuse_bind]
  refine .ite (fun _ => ?_) fun _ => onlyRefuses_ok ()
  refine .ite (fun _ => onlyRefuses_refuse (by rintro ⟨⟩)) fun _ => ?_
  refine .ite (fun _ => onlyRefuses_refuse (by rintro ⟨⟩)) fun _ => ?_
  refine .ite (fun _ => onlyRefuses_refuse (by rintro ⟨⟩)) fun _ => ?_
  exact .ite (fun _ => onlyRefuses_refuse (by rintro ⟨⟩)) fun _ => onlyRefuses_ok ()

/-- A check of parts in range does nothing but refuse. -/
theorem onlyRefuses_checkParts (h : ∀ part ∈ parts, part.InRange) :
    OnlyRefuses (checkParts parts) := by
  have hcontent := fun c hc => inRange_of_mem_contents h (c := c) hc
  refine ((refusesAs_checkRepetition hcontent).onlyRefuses (by decide)).bind fun _ _ => ?_
  refine ((refusesAs_checkScopes hcontent).onlyRefuses (by decide)).bind fun _ _ => ?_
  refine ((refusesAs_checkFixedDate hcontent).onlyRefuses (by decide)).bind fun _ _ => ?_
  exact onlyRefuses_checkLimiters

theorem onlyRefuses_checkLimitParts (h : ∀ part ∈ parts, part.InRange) :
    OnlyRefuses (checkLimitParts parts) := by
  induction parts with
  | nil => exact onlyRefuses_ok ()
  | cons part rest ih =>
    have hrest := ih fun other hother => h other (List.mem_cons_of_mem _ hother)
    have hpart := (h part (List.mem_cons_self ..)).exists_describe
    rw [checkLimitParts]
    split
    · exact onlyRefuses_refuse (by rintro ⟨⟩)
    · split
      · exact onlyRefuses_named_refuse hpart (by rintro _ ⟨⟩)
      · exact hrest

theorem onlyRefuses_checkLimit (h : ∀ part ∈ parts, part.InRange) :
    OnlyRefuses (checkLimit parts) :=
  (onlyRefuses_checkLimitParts h).bind fun _ _ => onlyRefuses_checkParts h

end Checks

section Searches

variable {plan : Plan} {term : Term} {t since : DateTime} {strict : Bool} {defaultTime : TimeOfDay}

theorem Content.exists_cycle? {c : Content} (h : c.InRange) : ∃ unit, c.cycle? = .ok unit := by
  cases c with
  | point p => exact ⟨_, rfl⟩
  | span s =>
    cases s with
    | days count => exact ⟨_, rfl⟩
    | counts cs looped =>
      cases looped with
      | false => exact ⟨none, by simp [Content.cycle?, Span.cycle?]⟩
      | true =>
        cases cs with
        | nil => exact absurd rfl h.1
        | cons c rest => exact ⟨_, rfl⟩

/-- A part that recurs fails to advance only where the calendar ends. -/
theorem Content.advance_error {c : Content} {unit : TimeUnit} {failure : Failure}
    (hcycle : c.cycle? = .ok (some unit)) (h : c.advance t = .error failure) :
    failure = .outOfRange := by
  cases c with
  | point p =>
    simp only [Content.advance, Point.advance] at h
    split at h
    · cases hcycle
    · cases h
    · exact (Except.error.inj h).symm
  | span s =>
    cases s with
    | days count => cases hcycle
    | counts cs looped =>
      cases looped with
      | false => simp [Content.cycle?, Span.cycle?] at hcycle
      | true =>
        simp only [Content.advance, Span.advance] at h
        split at h
        · cases h
        · exact (Except.error.inj h).symm

/-- A plan in range always advances, be it to no further candidate. -/
theorem Plan.exists_advanceOne {earlier later : List Step}
    (h : ∀ step ∈ earlier, step.content.InRange) :
    ∃ moved, plan.advanceOne t earlier later = .ok moved := by
  induction earlier generalizing later with
  | nil => exact ⟨none, rfl⟩
  | cons step earlier ih =>
    have hearlier := fun later => @ih later fun s hs => h s (List.mem_cons_of_mem _ hs)
    obtain ⟨unit, hcycle⟩ := Content.exists_cycle? (h step (List.mem_cons_self ..))
    have hcan : ∃ can, plan.canAdvance step = .ok can ∧ (can = true → unit.isSome = true) := by
      unfold canAdvance
      rw [hcycle]
      cases unit with
      | none => exact ⟨false, rfl, nofun⟩
      | some unit => cases step.content <;> exact ⟨_, rfl, fun _ => rfl⟩
    obtain ⟨can, hcan, hunit⟩ := hcan
    rw [advanceOne, hcan, ok_bind]
    cases can with
    | false => exact hearlier _
    | true =>
      simp only [Bool.not_true, Bool.false_eq_true, if_false]
      obtain ⟨unit, rfl⟩ := Option.isSome_iff_exists.1 (hunit rfl)
      split
      · exact ⟨none, rfl⟩
      · rename_i failure hne hfailed
        exact absurd (Content.advance_error hcycle hfailed) hne
      · split
        · split
          · exact ⟨_, rfl⟩
          · exact hearlier _
        · exact hearlier _

theorem Term.exists_describe (h : ∀ p ∈ term.parts, p.InRange) :
    ∃ text, term.describe = .ok text := by
  obtain ⟨texts, htexts⟩ := exists_describeAll fun p hp => (h p hp).exists_describe
  exact ⟨" ".intercalate texts, by rw [Term.describe, htexts]; rfl⟩

theorem inRange_of_mem_steps (h : ∀ p ∈ term.parts, p.InRange) :
    ∀ step ∈ (Plan.forTerm term defaultTime).steps, step.content.InRange := by
  have hcontent {c : Content} (hc : c ∈ term.content) : c.InRange := inRange_of_mem_contents h hc
  intro step hstep
  rcases List.mem_append.1 hstep with hstep | hstep
  · obtain ⟨s, hs, rfl⟩ := List.mem_map.1 hstep
    exact hcontent (Term.mem_spans.1 hs)
  · obtain ⟨p, hp, rfl⟩ := List.mem_map.1 hstep
    exact hcontent (Term.mem_ladder.1 hp)

/-- A candidate of a term in range is advanced, be it to no further one. -/
theorem Plan.exists_advance (h : ∀ p ∈ term.parts, p.InRange) (t : DateTime) :
    ∃ next, (Plan.forTerm term defaultTime).advance t = .ok next :=
  exists_advanceOne fun step hstep => inRange_of_mem_steps h step (List.mem_reverse.1 hstep)

theorem onlyRefuses_ofTerm (h : ∀ p ∈ term.parts, p.InRange) :
    OnlyRefuses (Plan.ofTerm term defaultTime) := by
  simp only [Plan.ofTerm]
  by_cases hempty : term.content.isEmpty = true
  · simp only [hempty, if_true, refuse_bind]
    exact onlyRefuses_named_refuse (Term.exists_describe h) (by rintro _ ⟨⟩)
  · simp only [hempty]
    exact onlyRefuses_ok _

theorem refusesAs_advanceUntil {threshold : Threshold} {rounds : Nat}
    (hparts : ∀ p ∈ term.parts, p.InRange) (hsteps : ∀ step ∈ plan.steps, step.content.InRange) :
    RefusesAs .noFutureOccurrence (term.advanceUntil plan since threshold rounds t) := by
  induction rounds generalizing t with
  | zero =>
    rw [Term.advanceUntil]
    exact .ite (fun _ => refusesAs_ok _) fun _ =>
      refusesAs_named_refuse (Term.exists_describe hparts) fun _ => rfl
  | succ rounds ih =>
    obtain ⟨moved, hmoved⟩ : ∃ moved, plan.advance t = .ok moved :=
      Plan.exists_advanceOne fun step hstep => hsteps step (List.mem_reverse.1 hstep)
    rw [Term.advanceUntil]
    refine .ite (fun _ => refusesAs_ok _) fun _ => ?_
    rw [hmoved, ok_bind]
    cases moved with
    | none => exact refusesAs_named_refuse (Term.exists_describe hparts) fun _ => rfl
    | some next => exact ih

theorem onlyRefuses_searchBy {bounds : Bounds} (hparts : ∀ p ∈ term.parts, p.InRange)
    (hsteps : ∀ step ∈ plan.steps, step.content.InRange) :
    OnlyRefuses (term.searchBy plan since strict bounds) := by
  simp only [Term.searchBy, Term.searchWithin]
  split
  · exact onlyRefuses_refuse (by rintro ⟨⟩)
  · refine ((refusesAs_advanceUntil hparts hsteps).onlyRefuses (by decide)).bind fun result _ => ?_
    split
    · exact .ite (fun _ => onlyRefuses_refuse (by rintro ⟨⟩)) fun _ => onlyRefuses_ok _
    · exact onlyRefuses_ok _

/-- A search that fails finds no occurrence, or one behind the upper bound. -/
theorem kind_of_searchBy {bounds : Bounds} {failure : Failure}
    (hparts : ∀ p ∈ term.parts, p.InRange) (hsteps : ∀ step ∈ plan.steps, step.content.InRange)
    (h : term.searchBy plan since strict bounds = .error failure) :
    ∃ error, failure = .expression error ∧
      (error.kind = .noFutureOccurrence ∨ ∃ found upper, error = .pastBound found upper) := by
  simp only [Term.searchBy, Term.searchWithin] at h
  split at h
  · exact ⟨_, (Except.error.inj h).symm, Or.inl rfl⟩
  · rcases bind_eq_error_iff.1 h with hsearch | ⟨candidate, -, h⟩
    · obtain ⟨error, rfl, hkind⟩ := refusesAs_advanceUntil hparts hsteps failure hsearch
      exact ⟨error, rfl, Or.inl hkind⟩
    · split at h
      · split at h
        · exact ⟨_, (Except.error.inj h).symm, Or.inr ⟨_, _, rfl⟩⟩
        · cases h
      · cases h

theorem onlyRefuses_orApply {result : Except Failure DateTime}
    (h : ∀ p ∈ term.parts, p.InRange) (hresult : OnlyRefuses result) :
    OnlyRefuses (term.orApply since defaultTime result) := by
  unfold Term.orApply
  split
  · rename_i error
    obtain ⟨_, herror, hkind⟩ := hresult _ rfl
    obtain rfl := Failure.expression.inj herror
    refine .ite (fun _ => ?_) fun _ => onlyRefuses_refuse hkind
    refine (onlyRefuses_ofTerm h).bind fun plan _ => ?_
    split
    · exact onlyRefuses_ok _
    · exact onlyRefuses_refuse (by rintro ⟨⟩)
  · exact hresult

theorem inRange_of_limit? {limit : Term} {side : Side} (h : ∀ p ∈ term.parts, p.InRange)
    (hlimit : term.limit? side = some limit) : ∀ p ∈ limit.parts, p.InRange := by
  unfold Term.limit? at hlimit
  split at hlimit
  · rename_i side' inner hlimiter
    obtain ⟨parts, rfl, rfl⟩ := Option.map_eq_some_iff.1 hlimit
    cases h _ (List.mem_of_find?_eq_some hlimiter) with
    | limit hparts => exact hparts
  · exact absurd hlimit nofun

/-- The limits of a term in range stand for instants, or the term is refused. -/
theorem onlyRefuses_bounds (term : Term) (since : DateTime) (defaultTime : TimeOfDay)
    (h : ∀ p ∈ term.parts, p.InRange) : OnlyRefuses (term.bounds since defaultTime) := by
  have hbound (side : Side) : OnlyRefuses (term.boundOn since defaultTime side) := by
    unfold Term.boundOn
    split
    · exact onlyRefuses_ok _
    · rename_i limit hlimit
      have hparts := inRange_of_limit? h hlimit
      have := Term.sizeOf_limit?_lt hlimit
      have hbounds := onlyRefuses_bounds limit since defaultTime hparts
      refine OnlyRefuses.bind (onlyRefuses_orApply hparts ?_) fun _ _ => onlyRefuses_ok _
      refine (onlyRefuses_ofTerm hparts).bind fun plan hplan => ?_
      obtain ⟨-, rfl⟩ := Plan.ofTerm_eq_ok_iff.1 hplan
      exact hbounds.bind fun limits _ =>
        onlyRefuses_searchBy hparts (inRange_of_mem_steps hparts)
  rw [Term.bounds_eq]
  exact (hbound .lower).bind fun _ _ => (hbound .upper).bind fun _ _ => onlyRefuses_ok _
termination_by sizeOf term

theorem onlyRefuses_checkSide {side : Side} (h : ∀ p ∈ term.parts, p.InRange) :
    OnlyRefuses (term.checkSide side) := by
  unfold Term.checkSide
  split
  · exact onlyRefuses_ok ()
  · rename_i limiter hlimiter
    split
    · exact onlyRefuses_named_refuse
        (h _ (List.mem_of_find?_eq_some hlimiter)).exists_describe (by rintro _ ⟨⟩)
    · rename_i limit hlimit
      exact onlyRefuses_checkLimit (inRange_of_limit? h hlimit)

/-- A term in range is made or refused. -/
theorem onlyRefuses_ofParts {parts : List Part} (h : ∀ p ∈ parts, p.InRange) :
    OnlyRefuses (Term.ofParts parts since defaultTime) := by
  simp only [Term.ofParts, refuse_bind]
  refine (onlyRefuses_checkParts h).bind fun _ _ =>
    .ite (fun _ => onlyRefuses_refuse (by rintro ⟨⟩)) fun _ => ?_
  refine (onlyRefuses_checkSide h).bind fun _ _ => (onlyRefuses_checkSide h).bind fun _ _ => ?_
  refine (onlyRefuses_bounds ⟨parts⟩ since defaultTime h).bind fun bounds _ => ?_
  split
  · exact .ite (fun _ => onlyRefuses_refuse (by rintro ⟨⟩)) fun _ => onlyRefuses_ok _
  · exact onlyRefuses_ok _

end Searches

end TimePhrase
