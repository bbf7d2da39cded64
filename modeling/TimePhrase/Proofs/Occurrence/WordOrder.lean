import TimePhrase.Proofs.Refusal

/-!
# The order of the words

The same parts in another order are the same expression. What the checks ask for does not depend on
the order, and the plan puts the points in an order of its own, which leaves it no choice as long as
no two of them are equally coarse. Only spans are taken as they come. What may differ is the wording
of a refusal, which quotes the expression or one of its parts.
-/

namespace TimePhrase

/-- Both runs come to the same result, or both are refused for faults of the same kind. -/
inductive SameUpToWording {α : Type} : Except Failure α → Except Failure α → Prop
  | result (a : α) : SameUpToWording (.ok a) (.ok a)
  | refusal {e f : ExpressionError} (h : e.kind = f.kind) :
    SameUpToWording (.error (.expression e)) (.error (.expression f))

namespace SameUpToWording

variable {α β : Type} {x y : Except Failure α}

theorem refl (h : OnlyRefuses x) : SameUpToWording x x := by
  cases x with
  | ok a => exact .result a
  | error failure =>
    obtain ⟨error, rfl, -⟩ := h failure rfl
    exact .refusal rfl

theorem eq_ok {a : α} (h : SameUpToWording x y) (hx : x = .ok a) : y = .ok a := by
  cases h with
  | result b => exact hx
  | refusal hkind => cases hx

theorem bind {f g : α → Except Failure β} (h : SameUpToWording x y)
    (hfg : ∀ a, x = .ok a → SameUpToWording (f a) (g a)) :
    SameUpToWording (x >>= f) (y >>= g) := by
  cases h with
  | result a => exact hfg a rfl
  | refusal hkind => exact .refusal hkind

/-- Refusals that name something, of the same kind whatever they name. -/
theorem named_refuse {name other : Except Undescribed String} {error : String → ExpressionError}
    (hname : ∃ text, name = .ok text) (hother : ∃ text, other = .ok text)
    (hkind : ∀ text text', (error text).kind = (error text').kind) :
    SameUpToWording (named name >>= fun text => (refuse (error text) : Except Failure α))
      (named other >>= fun text => refuse (error text)) := by
  obtain ⟨text, rfl⟩ := hname
  obtain ⟨text', rfl⟩ := hother
  exact .refusal (hkind text text')

/-- Checks that refuse for the same kind of fault agree if they accept the same. -/
theorem of_refusesAs {kind : ErrorKind} {x y : Except Failure Unit} (hx : RefusesAs kind x)
    (hy : RefusesAs kind y) (h : x = .ok () ↔ y = .ok ()) : SameUpToWording x y := by
  cases x with
  | ok =>
    rw [h.1 rfl]
    exact .result ()
  | error failure =>
    obtain ⟨error, rfl, hkind⟩ := hx failure rfl
    cases y with
    | ok => cases h.2 rfl
    | error other =>
      obtain ⟨error', rfl, hkind'⟩ := hy other rfl
      exact .refusal (hkind.trans hkind'.symm)

end SameUpToWording

section Checks

variable {content other : List Content}

theorem sameUpToWording_checkRepetition (h : content.Perm other)
    (hrange : ∀ c ∈ content, c.InRange) :
    SameUpToWording (checkRepetition content) (checkRepetition other) := by
  have hother : ∀ c ∈ other, c.InRange := fun c hc => hrange c (h.mem_iff.2 hc)
  apply SameUpToWording.of_refusesAs (refusesAs_checkRepetition hrange)
    (refusesAs_checkRepetition hother)
  simp only [checkRepetition_eq_ok_iff, h.mem_iff]

/-- That no two parts settle the same unit does not depend on which of them comes first. -/
theorem sameUpToWording_checkScopes (h : content.Perm other)
    (hrange : ∀ c ∈ content, c.InRange) :
    SameUpToWording (checkScopes .empty content) (checkScopes .empty other) := by
  have hother : ∀ c ∈ other, c.InRange := fun c hc => hrange c (h.mem_iff.2 hc)
  apply SameUpToWording.of_refusesAs (refusesAs_checkScopes hrange) (refusesAs_checkScopes hother)
  simp only [checkScopes_eq_ok_iff, Scope.disjoint_empty, implies_true, true_and]
  exact h.pairwise_iff Scope.Disjoint.symm

theorem sameUpToWording_checkFixedDate (h : content.Perm other)
    (hrange : ∀ c ∈ content, c.InRange) :
    SameUpToWording (checkFixedDate content) (checkFixedDate other) := by
  have hother : ∀ c ∈ other, c.InRange := fun c hc => hrange c (h.mem_iff.2 hc)
  apply SameUpToWording.of_refusesAs (refusesAs_checkFixedDate hrange)
    (refusesAs_checkFixedDate hother)
  simp only [checkFixedDate_eq_ok_iff, h.mem_iff]

/-- Without limiters there is nothing for their check to refuse. -/
theorem checkLimiters_map_content (content : List Content) :
    checkLimiters (content.map .content) = .ok () := by
  have hnone : (content.map Part.content).filterMap Part.side? = [] := by
    simp [List.filterMap_map, Part.side?]
  simp [checkLimiters, hnone]

theorem sameUpToWording_checkParts (h : content.Perm other)
    (hrange : ∀ c ∈ content, c.InRange) :
    SameUpToWording (checkParts (content.map .content)) (checkParts (other.map .content)) := by
  simp only [checkParts, contents_map_content, checkLimiters_map_content]
  refine (sameUpToWording_checkRepetition h hrange).bind fun _ _ => ?_
  refine (sameUpToWording_checkScopes h hrange).bind fun _ _ => ?_
  refine (sameUpToWording_checkFixedDate h hrange).bind fun _ _ => ?_
  exact .result ()

end Checks

section Searches

variable {plan : Plan} {term other : Term} {since : DateTime} {threshold : Threshold}

/-- Of two searches by the same plan, the number of advances left and the candidate decide. -/
theorem sameUpToWording_advanceUntil (hterm : ∃ text, term.describe = .ok text)
    (hother : ∃ text, other.describe = .ok text)
    (hsteps : ∀ step ∈ plan.steps, step.content.InRange) (rounds : Nat) (candidate : DateTime) :
    SameUpToWording (term.advanceUntil plan since threshold rounds candidate)
      (other.advanceUntil plan since threshold rounds candidate) := by
  induction rounds generalizing candidate with
  | zero =>
    rw [Term.advanceUntil, Term.advanceUntil]
    split
    · exact .result candidate
    · exact .named_refuse hterm hother fun _ _ => rfl
  | succ rounds ih =>
    obtain ⟨moved, hmoved⟩ : ∃ moved, plan.advance candidate = .ok moved :=
      Plan.exists_advanceOne fun step hstep => hsteps step (List.mem_reverse.1 hstep)
    rw [Term.advanceUntil, Term.advanceUntil]
    split
    · exact .result candidate
    · rw [hmoved, ok_bind, ok_bind]
      cases moved with
      | none => exact .named_refuse hterm hother fun _ _ => rfl
      | some next => exact ih next

theorem sameUpToWording_searchBy {strict : Bool} {bounds : Bounds}
    (hterm : ∃ text, term.describe = .ok text) (hother : ∃ text, other.describe = .ok text)
    (hsteps : ∀ step ∈ plan.steps, step.content.InRange) :
    SameUpToWording (term.searchBy plan since strict bounds)
      (other.searchBy plan since strict bounds) := by
  simp only [Term.searchBy, Term.searchWithin]
  split
  · exact .refusal rfl
  · refine (sameUpToWording_advanceUntil hterm hother hsteps _ _).bind fun candidate _ => ?_
    split
    · split
      · exact .refusal rfl
      · exact .result candidate
    · exact .result candidate

end Searches

namespace Term

/-- A term without limiters. -/
def ofContent (content : List Content) : Term := ⟨content.map .content⟩

variable {content other : List Content} {defaultTime : TimeOfDay} {since : DateTime}

@[simp] theorem content_ofContent (content : List Content) :
    (ofContent content).content = content :=
  contents_map_content content

theorem inRange_parts_ofContent (hrange : ∀ c ∈ content, c.InRange) :
    ∀ part ∈ (ofContent content).parts, part.InRange := by
  intro part hpart
  obtain ⟨c, hc, rfl⟩ := List.mem_map.1 hpart
  exact .content (hrange c hc)

theorem isLooped_eq_of_perm (h : content.Perm other) :
    (ofContent content).isLooped = (ofContent other).isLooped := by
  simp only [isLooped, content_ofContent]
  exact h.any_eq

/-- Valid content is planned alike in any order that leaves its spans in theirs. -/
theorem forTerm_ofContent_eq_of_perm (h : content.Perm other)
    (hvalid : checkParts (ofContent content).parts = .ok ())
    (hspans : content.filterMap Content.span? = other.filterMap Content.span?) :
    Plan.forTerm (ofContent content) defaultTime = Plan.forTerm (ofContent other) defaultTime := by
  have hcontent : (ofContent content).content.Perm (ofContent other).content := by
    simpa only [content_ofContent] using h
  have hone := (checkParts_eq_ok_iff.1 hvalid).granularity_nodup
  apply Plan.forTerm_eq_of_spans_eq hcontent
  · simpa only [spans, content_ofContent] using hspans
  · have hpoints : (ofContent content).points.Perm (ofContent other).points :=
      hcontent.filterMap _
    exact (hpoints.map Point.granularity).nodup_iff.1 hone

/-- Terms that differ in the order of their words are planned alike, or refused alike because
they have none. -/
theorem sameUpToWording_ofTerm (h : content.Perm other) (hrange : ∀ c ∈ content, c.InRange)
    (hvalid : checkParts (ofContent content).parts = .ok ())
    (hspans : content.filterMap Content.span? = other.filterMap Content.span?) :
    SameUpToWording (Plan.ofTerm (ofContent content) defaultTime)
      (Plan.ofTerm (ofContent other) defaultTime) := by
  cases content with
  | nil =>
    obtain rfl := h.nil_eq
    exact .refl (onlyRefuses_ofTerm (inRange_parts_ofContent hrange))
  | cons c rest =>
    have hcontent : (ofContent (c :: rest)).content ≠ [] := by simp
    have hother : (ofContent other).content ≠ [] := by
      rintro hnil
      rw [content_ofContent] at hnil
      cases (hnil ▸ h).eq_nil
    rw [Plan.ofTerm_eq_ok_iff.2 ⟨hcontent, rfl⟩, Plan.ofTerm_eq_ok_iff.2 ⟨hother, rfl⟩,
      forTerm_ofContent_eq_of_perm h hvalid hspans]
    exact .result _

theorem sameUpToWording_apply (h : content.Perm other) (hrange : ∀ c ∈ content, c.InRange)
    (hvalid : checkParts (ofContent content).parts = .ok ())
    (hspans : content.filterMap Content.span? = other.filterMap Content.span?) :
    SameUpToWording ((ofContent content).apply since defaultTime)
      ((ofContent other).apply since defaultTime) := by
  refine (sameUpToWording_ofTerm h hrange hvalid hspans).bind fun plan _ => ?_
  split
  · exact .result _
  · exact .refusal rfl

theorem sameUpToWording_next (h : content.Perm other) (hrange : ∀ c ∈ content, c.InRange)
    (hvalid : checkParts (ofContent content).parts = .ok ())
    (hspans : content.filterMap Content.span? = other.filterMap Content.span?) (strict : Bool)
    (bounds : Option Bounds) :
    SameUpToWording ((ofContent content).next since strict defaultTime bounds)
      ((ofContent other).next since strict defaultTime bounds) := by
  have hparts := inRange_parts_ofContent hrange
  have hother := inRange_parts_ofContent fun c hc => hrange c (h.mem_iff.2 hc)
  have hbounds (content : List Content) :
      (ofContent content).boundsFor since defaultTime bounds = .ok (bounds.getD .none) :=
    boundsFor_of_unlimited (fun _ hpart => isLimiter_of_mem_map_content hpart) bounds
  rw [next_eq_ofTerm_bind, next_eq_ofTerm_bind]
  refine (sameUpToWording_ofTerm h hrange hvalid hspans).bind fun plan hplan => ?_
  obtain ⟨-, rfl⟩ := Plan.ofTerm_eq_ok_iff.1 hplan
  rw [hbounds, hbounds, ok_bind, ok_bind]
  exact sameUpToWording_searchBy (exists_describe hparts) (exists_describe hother)
    (inRange_of_mem_steps hparts)

/-- Word order does not change the meaning: a permutation of content is accepted, or refused for the
same kind of fault, and where the spans keep their order, what the expression says and when it next
occurs are the same. A search is strict for expressions that repeat unless it is told otherwise. -/
theorem sameUpToWording_of_perm (h : content.Perm other) (hrange : ∀ c ∈ content, c.InRange) :
    SameUpToWording (checkParts (ofContent content).parts) (checkParts (ofContent other).parts) ∧
      (checkParts (ofContent content).parts = .ok () →
        content.filterMap Content.span? = other.filterMap Content.span? →
        ∀ (since : DateTime) (defaultTime : TimeOfDay) (strict : Option Bool)
          (bounds : Option Bounds),
          SameUpToWording ((ofContent content).apply since defaultTime)
              ((ofContent other).apply since defaultTime) ∧
            SameUpToWording
              ((ofContent content).next since (strict.getD (ofContent content).isLooped)
                defaultTime bounds)
              ((ofContent other).next since (strict.getD (ofContent other).isLooped)
                defaultTime bounds)) := by
  refine ⟨sameUpToWording_checkParts h hrange, ?_⟩
  intro hvalid hspans since defaultTime strict bounds
  constructor
  · exact sameUpToWording_apply h hrange hvalid hspans
  · rw [← isLooped_eq_of_perm h]
    exact sameUpToWording_next h hrange hvalid hspans _ bounds

/-- Monday at nine every two weeks is every two weeks on Monday at nine. -/
theorem sameUpToWording_of_perm_everyTwoWeeks :
    (ofContent [.point (.weekday 1 false), .point (.time ⟨9, 0⟩ false),
        .span (.counts [(.week, 2)] true)]).next ⟨⟨2024, 1, 3, by decide⟩, 9, 30, 0, 0⟩ true
      .midnight none = .ok ⟨⟨2024, 1, 15, by decide⟩, 9, 0, 0, 0⟩ := by
  have hperm : [Content.span (.counts [(.week, 2)] true), .point (.weekday 1 false),
      .point (.time ⟨9, 0⟩ false)].Perm [.point (.weekday 1 false), .point (.time ⟨9, 0⟩ false),
        .span (.counts [(.week, 2)] true)] := by decide
  have hrange : ∀ c ∈ [Content.span (.counts [(.week, 2)] true), .point (.weekday 1 false),
      .point (.time ⟨9, 0⟩ false)], c.InRange := by
    have hweeks : (Span.counts [(.week, 2)] true).InRange :=
      Span.inRange_counts_singleton (by decide) .week true
    simp [Content.InRange, Point.InRange, hweeks]
  have hnext : (ofContent [.span (.counts [(.week, 2)] true), .point (.weekday 1 false),
      .point (.time ⟨9, 0⟩ false)]).next ⟨⟨2024, 1, 3, by decide⟩, 9, 30, 0, 0⟩ true .midnight
        none = .ok ⟨⟨2024, 1, 15, by decide⟩, 9, 0, 0, 0⟩ := by decide +kernel
  have hsame := ((sameUpToWording_of_perm hperm hrange).2 (by decide +kernel) rfl
    ⟨⟨2024, 1, 3, by decide⟩, 9, 30, 0, 0⟩ .midnight (some true) none).2
  exact hsame.eq_ok hnext

/-- Spans are taken as they come: a month and a day after 30 January is not a day and a month. -/
example : (ofContent [.span (.counts [(.month, 1)] false), .span (.counts [(.day, 1)] false)]).apply
      ⟨⟨2025, 1, 30, by decide⟩, 9, 0, 0, 0⟩ .midnight =
        .ok ⟨⟨2025, 3, 1, by decide⟩, 9, 0, 0, 0⟩ ∧
    (ofContent [.span (.counts [(.day, 1)] false), .span (.counts [(.month, 1)] false)]).apply
      ⟨⟨2025, 1, 30, by decide⟩, 9, 0, 0, 0⟩ .midnight =
        .ok ⟨⟨2025, 2, 28, by decide⟩, 9, 0, 0, 0⟩ := by
  decide +kernel

end Term

end TimePhrase
