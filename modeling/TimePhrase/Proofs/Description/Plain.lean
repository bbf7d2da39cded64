import TimePhrase.Validity
import TimePhrase.Proofs.Occurrence.Search

/-!
# Times of day without their form

"Quarter past 5" and "at 5:15" name the same time of day. A term is plain when its times do not
remember that they were given relative to the hour. Making a term plain changes neither its
description nor its validity nor anything that it leads to.
-/

namespace TimePhrase

/-- The point, as if its time of day had been given directly. -/
def Point.plain : Point → Point
  | .time clock _ => .time clock false
  | p => p

@[inherit_doc Point.plain]
def Content.plain : Content → Content
  | .point p => .point p.plain
  | .span s => .span s

mutual

/-- The part, as if all times of day in it had been given directly. -/
def Part.plain : Part → Part
  | .content c => .content c.plain
  | .limiter side none => .limiter side none
  | .limiter side (some parts) => .limiter side (some (plainAll parts))

/-- The parts, as if all times of day in them had been given directly. -/
def plainAll : List Part → List Part
  | [] => []
  | part :: parts => part.plain :: plainAll parts

end

/-- The term, as if all times of day in it had been given directly. -/
def Term.plain (t : Term) : Term := ⟨plainAll t.parts⟩

theorem plainAll_eq_map (parts : List Part) : plainAll parts = parts.map Part.plain := by
  induction parts with
  | nil => rw [plainAll, List.map_nil]
  | cons p rest ih => rw [plainAll, ih, List.map_cons]

namespace Point

variable (p : Point)

@[simp] theorem describe_plain : p.plain.describe = p.describe := by cases p <;> rfl

@[simp] theorem isLooped_plain : p.plain.isLooped = p.isLooped := by cases p <;> rfl

@[simp] theorem isAbsolute_plain : p.plain.isAbsolute = p.isAbsolute := by cases p <;> rfl

@[simp] theorem scope_plain : p.plain.scope = p.scope := by cases p <;> rfl

@[simp] theorem cycle?_plain : p.plain.cycle? = p.cycle? := by cases p <;> rfl

@[simp] theorem granularity_plain : p.plain.granularity = p.granularity := by
  simp only [granularity, scope_plain]

theorem isWeekday_plain : (p.plain.kind = .weekday) = (p.kind = .weekday) := by
  cases p with
  | time clock inverted => cases inverted <;> simp [plain, kind]
  | _ => rfl

@[simp] theorem moveTo?_plain (t : DateTime) (fenced : Bool) :
    p.plain.moveTo? t fenced = p.moveTo? t fenced := by cases p <;> rfl

@[simp] theorem advance_plain (t : DateTime) : p.plain.advance t = p.advance t := by
  cases p with
  | time clock inverted =>
    simp only [plain, advance]
    cases t.addDays? 1 <;> rfl
  | _ => rfl

@[simp] theorem realign?_plain (t : DateTime) : p.plain.realign? t = p.realign? t := by
  cases p <;> rfl

@[simp] theorem holdsAt_plain (t : DateTime) : p.plain.holdsAt t = p.holdsAt t := by
  cases p <;> rfl

end Point

namespace Content

variable (c : Content)

@[simp] theorem describe_plain : c.plain.describe = c.describe := by
  cases c <;> simp [plain, describe]

@[simp] theorem isLooped_plain : c.plain.isLooped = c.isLooped := by
  cases c <;> simp [plain, isLooped]

@[simp] theorem isAbsolute_plain : c.plain.isAbsolute = c.isAbsolute := by
  cases c <;> simp [plain, isAbsolute]

@[simp] theorem scope_plain : c.plain.scope = c.scope := by
  cases c <;> simp [plain, scope]

@[simp] theorem fitsFixedDate_plain : c.plain.fitsFixedDate = c.fitsFixedDate := by
  rcases c with (_ | _ | _ | _ | _ | _) | _ <;> rfl

@[simp] theorem cycle?_plain : c.plain.cycle? = c.cycle? := by
  cases c <;> simp [plain, cycle?]

@[simp] theorem moveTo?_plain (t : DateTime) (fenced : Bool) :
    c.plain.moveTo? t fenced = c.moveTo? t fenced := by
  cases c <;> simp [plain, moveTo?]

@[simp] theorem advance_plain (t : DateTime) : c.plain.advance t = c.advance t := by
  cases c <;> simp [plain, advance]

@[simp] theorem realign?_plain (t : DateTime) : c.plain.realign? t = c.realign? t := by
  cases c <;> simp [plain, realign?]

@[simp] theorem holdsAt_plain (t : DateTime) : c.plain.holdsAt t = c.holdsAt t := by
  cases c <;> simp [plain, holdsAt]

@[simp] theorem fault_plain (t : DateTime) (fenced : Bool) :
    c.plain.fault t fenced = c.fault t fenced := by
  cases c <;> rfl

@[simp] theorem span?_plain : c.plain.span? = c.span? := by cases c <;> rfl

@[simp] theorem point?_plain : c.plain.point? = c.point?.map Point.plain := by cases c <;> rfl

end Content

namespace Part

variable (p : Part)

@[simp] theorem isLimiter_plain : p.plain.isLimiter = p.isLimiter := by
  rcases p with c | ⟨side, _ | limit⟩ <;> rw [plain] <;> rfl

@[simp] theorem isLooped_plain : p.plain.isLooped = p.isLooped := by
  rcases p with c | ⟨side, _ | limit⟩ <;> simp [plain, isLooped]

@[simp] theorem side?_plain : p.plain.side? = p.side? := by
  rcases p with c | ⟨side, _ | limit⟩ <;> rw [plain] <;> rfl

@[simp] theorem content?_plain : p.plain.content? = p.content?.map Content.plain := by
  rcases p with c | ⟨side, _ | limit⟩ <;> simp [plain, content?]

end Part

mutual

/-- A part and its plain form are described alike. -/
theorem Part.describe_plain : (p : Part) → p.plain.describe = p.describe
  | .content c => by simp [Part.plain, Part.describe]
  | .limiter side none => by rw [Part.plain]
  | .limiter side (some []) => by rw [Part.plain, plainAll]
  | .limiter side (some (part :: parts)) => by
    rw [Part.plain, plainAll, Part.describe, Part.describe, part.describe_plain,
      describeAll_plainAll parts]

theorem describeAll_plainAll : (parts : List Part) →
    describeAll (plainAll parts) = describeAll parts
  | [] => by rw [plainAll]
  | part :: parts => by
    rw [plainAll, describeAll, describeAll, part.describe_plain, describeAll_plainAll parts]

end

theorem Term.describe_plain (t : Term) : t.plain.describe = t.describe := by
  rw [Term.describe, Term.plain, describeAll_plainAll, Term.describe]

theorem contents_plainAll (parts : List Part) :
    contents (plainAll parts) = (contents parts).map Content.plain := by
  simp only [contents, plainAll_eq_map, List.filterMap_map, List.map_filterMap]
  congr 1
  funext p
  simp

section Checks

theorem checkScopes_plain (settled : Scope) (content : List Content) :
    checkScopes settled (content.map Content.plain) = checkScopes settled content := by
  induction content generalizing settled with
  | nil => rfl
  | cons c rest ih => simp only [List.map_cons, checkScopes, Content.scope_plain,
      Content.describe_plain, ih]

theorem checkRepetition_plain (content : List Content) :
    checkRepetition (content.map Content.plain) = checkRepetition content := by
  have hfind : (content.map Content.plain).find? Content.isAbsolute =
      (content.find? Content.isAbsolute).map Content.plain := by
    have hkept : Content.isAbsolute ∘ Content.plain = Content.isAbsolute :=
      funext Content.isAbsolute_plain
    rw [List.find?_map, hkept]
  unfold checkRepetition
  rw [hfind]
  cases content.find? Content.isAbsolute with
  | none => rfl
  | some fixed => simp [List.any_map, Function.comp_def]

theorem checkFixedDate_plain (content : List Content) :
    checkFixedDate (content.map Content.plain) = checkFixedDate content := by
  have hfind : (content.map Content.plain).find? (!·.fitsFixedDate) =
      (content.find? (!·.fitsFixedDate)).map Content.plain := by
    have hkept : (!·.fitsFixedDate) ∘ Content.plain = (!·.fitsFixedDate) :=
      funext fun c => congrArg not c.fitsFixedDate_plain
    rw [List.find?_map, hkept]
  unfold checkFixedDate
  rw [hfind, List.any_map]
  cases content.find? (!·.fitsFixedDate) <;> simp [Function.comp_def]

theorem checkLimiters_plain (parts : List Part) :
    checkLimiters (plainAll parts) = checkLimiters parts := by
  have hsides : (plainAll parts).filterMap Part.side? = parts.filterMap Part.side? := by
    simp [plainAll_eq_map, List.filterMap_map]
  have hlast : ((plainAll parts).dropWhile (!·.isLimiter)).any (!·.isLimiter) =
      (parts.dropWhile (!·.isLimiter)).any (!·.isLimiter) := by
    simp [plainAll_eq_map, List.dropWhile_map, List.any_map, Function.comp_def]
  unfold checkLimiters
  simp only [hsides, hlast, contents_plainAll, List.isEmpty_map, List.any_map,
    Function.comp_def, Content.isLooped_plain]

/-- Plain parts go together if and only if the parts do. -/
theorem checkParts_plain (parts : List Part) : checkParts (plainAll parts) = checkParts parts := by
  unfold checkParts
  simp only [contents_plainAll, checkRepetition_plain, checkScopes_plain, checkFixedDate_plain,
    checkLimiters_plain]

theorem checkLimit_plain (parts : List Part) : checkLimit (plainAll parts) = checkLimit parts := by
  have hparts (parts : List Part) : checkLimitParts (plainAll parts) = checkLimitParts parts := by
    induction parts with
    | nil => rw [plainAll]
    | cons p rest ih =>
      rw [plainAll, checkLimitParts, checkLimitParts, ih]
      simp only [Part.isLimiter_plain, Part.isLooped_plain, Part.describe_plain]
  unfold checkLimit
  rw [hparts, checkParts_plain]

end Checks

section Searches

/-- The move onto the plain part. -/
def Step.plain (step : Step) : Step := { step with content := step.content.plain }

@[simp] theorem Step.content_plain (step : Step) : step.plain.content = step.content.plain := rfl

@[simp] theorem Step.moveTo?_plain (step : Step) (t : DateTime) :
    step.plain.moveTo? t = step.moveTo? t := Content.moveTo?_plain _ _ _

namespace Plan

/-- The plan with all its moves onto plain parts. -/
def plain (plan : Plan) : Plan := { plan with steps := plan.steps.map Step.plain }

variable (plan : Plan) (steps : List Step) (t : DateTime)

@[simp] theorem applySteps_plain : applySteps (steps.map Step.plain) t = applySteps steps t := by
  induction steps generalizing t with
  | nil => rfl
  | cons step rest ih => simp only [List.map_cons, applySteps, Step.moveTo?_plain, ih]

@[simp] theorem moveBy_plain :
    plan.plain.moveBy (steps.map Step.plain) t = plan.moveBy steps t := by
  simp only [moveBy, applySteps_plain]
  rfl

@[simp] theorem realign?_plain : plan.plain.realign? t = plan.realign? t := by
  simp [realign?, plain, List.foldlM_map]

@[simp] theorem settle?_plain :
    plan.plain.settle? (steps.map Step.plain) t = plan.settle? steps t := by
  simp only [settle?, moveBy_plain, realign?_plain]

@[simp] theorem holdsAt_plain : plan.plain.holdsAt t = plan.holdsAt t := by
  simp [holdsAt, plain, List.all_map, Function.comp_def]

@[simp] theorem faultOf_plain : faultOf (steps.map Step.plain) t = faultOf steps t := by
  induction steps generalizing t with
  | nil => rfl
  | cons step rest ih =>
    simp only [List.map_cons, faultOf, Step.moveTo?_plain, ih, Step.content_plain,
      Content.fault_plain]
    rfl

@[simp] theorem canAdvance_plain (step : Step) :
    plan.plain.canAdvance step.plain = plan.canAdvance step := by
  simp only [canAdvance, Step.content_plain, Content.cycle?_plain]
  cases step.content <;> rfl

theorem stepsAfterAdvance_plain (step : Step) :
    stepsAfterAdvance step.plain (steps.map Step.plain) =
      (stepsAfterAdvance step steps).map Step.plain := by
  obtain ⟨content, fenced⟩ := step
  cases content <;> rfl

theorem advanceOne_plain (earlier later : List Step) :
    plan.plain.advanceOne t (earlier.map Step.plain) (later.map Step.plain) =
      plan.advanceOne t earlier later := by
  induction earlier generalizing later with
  | nil => rfl
  | cons step earlier ih =>
    have hnext := ih (step :: later)
    rw [List.map_cons] at hnext
    simp only [List.map_cons, advanceOne, canAdvance_plain, Step.content_plain,
      Content.advance_plain, stepsAfterAdvance_plain, settle?_plain, holdsAt_plain, hnext]

@[simp] theorem advance_plain : plan.plain.advance t = plan.advance t := by
  have h := advanceOne_plain plan t plan.steps.reverse []
  rw [List.map_reverse] at h
  exact h

theorem forTerm_plain (term : Term) (defaultTime : TimeOfDay) :
    forTerm term.plain defaultTime = (forTerm term defaultTime).plain := by
  have hcontent : term.plain.content = term.content.map Content.plain := contents_plainAll _
  have hscope : term.plain.scope = term.scope := by
    simp [Term.scope, hcontent, Function.comp_def]
  have hspans : term.plain.spans = term.spans := by
    simp [Term.spans, hcontent, List.filterMap_map]
  have hpoints : term.plain.points = term.points.map Point.plain := by
    simp [Term.points, hcontent, List.filterMap_map, List.map_filterMap]
  have hladder : term.plain.ladder = term.ladder.map Point.plain := by
    simp [Term.ladder, hpoints, coarseToFine, List.filter_map, Function.comp_def]
  have hspan (s : Span) : Step.ofSpan term.plain.points s = (Step.ofSpan term.points s).plain := by
    simp [hpoints, Step.ofSpan, Step.plain, Content.plain]
  have hpoint (p : Point) :
      Step.ofPoint term.plain.points p.plain = (Step.ofPoint term.points p).plain := by
    simp [hpoints, Step.ofPoint, Step.plain, Content.plain, List.any_map, Function.comp_def,
      Point.isWeekday_plain]
  have hsteps : (forTerm term.plain defaultTime).steps =
      (forTerm term defaultTime).steps.map Step.plain := by
    simp [forTerm, hspans, hladder, hspan, hpoint, Function.comp_def]
  have htime : (forTerm term.plain defaultTime).defaultTime =
      (forTerm term defaultTime).defaultTime := by
    simp [forTerm, hpoints, hscope, List.any_map, Function.comp_def]
  simp only [plain, ← hsteps, ← htime]
  simp only [forTerm, hspans]

theorem ofTerm_plain (term : Term) (defaultTime : TimeOfDay) :
    ofTerm term.plain defaultTime = plain <$> ofTerm term defaultTime := by
  have hcontent : term.plain.content = term.content.map Content.plain := contents_plainAll _
  by_cases hempty : term.content = []
  · simp only [ofTerm, hcontent, hempty, List.map_nil, List.isEmpty_nil, if_true,
      Term.describe_plain, refuse_bind]
    cases term.describe <;> rfl
  · have hplain : term.plain.content ≠ [] := by simpa [hcontent] using hempty
    rw [ofTerm_eq_ok_iff.2 ⟨hempty, rfl⟩, ofTerm_eq_ok_iff.2 ⟨hplain, rfl⟩, forTerm_plain]
    rfl

end Plan

namespace Term

variable (term : Term) (plan : Plan) (since : DateTime) (defaultTime : TimeOfDay)

theorem advanceUntil_plain (threshold : Threshold) (rounds : Nat) (candidate : DateTime) :
    term.plain.advanceUntil plan.plain since threshold rounds candidate =
      term.advanceUntil plan since threshold rounds candidate := by
  induction rounds generalizing candidate with
  | zero => simp only [advanceUntil, describe_plain]
  | succ rounds ih => simp only [advanceUntil, describe_plain, Plan.advance_plain, ih]

theorem searchBy_plain (strict : Bool) :
    term.plain.searchBy plan.plain since strict = term.searchBy plan since strict := by
  funext bounds
  have hsteps : plan.plain.steps = plan.steps.map Step.plain := rfl
  simp only [searchBy, searchWithin, hsteps, Plan.settle?_plain, Plan.faultOf_plain,
    advanceUntil_plain]

theorem apply_plain : term.plain.apply since defaultTime = term.apply since defaultTime := by
  have hsteps (plan : Plan) : plan.plain.steps = plan.steps.map Step.plain := rfl
  simp only [apply, Plan.ofTerm_plain, bind_map_left, hsteps, Plan.moveBy_plain,
    Plan.faultOf_plain]

theorem orApply_plain (result : Except Failure DateTime) :
    term.plain.orApply since defaultTime result = term.orApply since defaultTime result := by
  unfold orApply
  rw [apply_plain]

theorem limiter?_plain (side : Side) :
    term.plain.limiter? side = (term.limiter? side).map Part.plain := by
  have hkept : (fun p : Part => decide (p.side? = some side)) ∘ Part.plain =
      fun p => decide (p.side? = some side) := by
    funext p
    simp
  rw [limiter?, plain, plainAll_eq_map, List.find?_map, hkept, limiter?]

theorem limit?_plain (side : Side) : term.plain.limit? side = (term.limit? side).map plain := by
  rw [limit?, limiter?_plain, limit?]
  rcases term.limiter? side with _ | c | ⟨other, _ | limit⟩
  · rfl
  · simp [Part.plain]
  · simp [Part.plain]
  · simp [Part.plain, plain]

/-- The limits of a plain term stand for the same instants. -/
theorem bounds_plain (term : Term) (since : DateTime) (defaultTime : TimeOfDay) :
    term.plain.bounds since defaultTime = term.bounds since defaultTime := by
  have hbound (side : Side) :
      term.plain.boundOn since defaultTime side = term.boundOn since defaultTime side := by
    unfold boundOn
    rw [limit?_plain]
    cases hlimit : term.limit? side with
    | none => rfl
    | some limit =>
      have := sizeOf_limit?_lt hlimit
      have hbounds := bounds_plain limit since defaultTime
      simp only [Option.map_some, instant, orApply_plain, next_eq_ofTerm_bind, Plan.ofTerm_plain,
        boundsFor, hbounds, bind_map_left, searchBy_plain]
  rw [bounds_eq, bounds_eq, hbound, hbound]
termination_by sizeOf term

theorem checkSide_plain (side : Side) : term.plain.checkSide side = term.checkSide side := by
  unfold checkSide
  rw [limiter?_plain, limit?_plain]
  cases term.limiter? side with
  | none => rfl
  | some limiter =>
    cases term.limit? side with
    | none => simp only [Option.map_some, Option.map_none, Part.describe_plain]
    | some limit => exact checkLimit_plain limit.parts

/-- The plain form of valid parts makes the plain form of their term. -/
theorem ofParts_plain {parts : List Part} {reference : DateTime}
    (h : ofParts parts reference defaultTime = .ok term) :
    ofParts (plainAll parts) reference defaultTime = .ok term.plain := by
  obtain ⟨rfl, hvalid, hcontent, hsides, bounds, hbounds, hbetween⟩ := ofParts_eq_ok_iff.1 h
  refine ofParts_eq_ok_iff.2 ⟨rfl, ?_, ?_, fun side => ?_, bounds, ?_, hbetween⟩
  · exact checkParts_eq_ok_iff.1 ((checkParts_plain parts).trans (checkParts_eq_ok_iff.2 hvalid))
  · simpa [contents_plainAll] using hcontent
  · exact (checkSide_plain ⟨parts⟩ side).trans (hsides side)
  · exact (bounds_plain ⟨parts⟩ reference defaultTime).trans hbounds

end Term

end Searches

end TimePhrase
