import TimePhrase.Validity
import TimePhrase.Proofs.Calendar.DateTime
import TimePhrase.Proofs.Outcome

/-!
# What the checks of an expression ask for

Each check is a chain of refusals. Here it is read as a condition: `ValidParts` says what
`checkParts` accepts and `ValidLimit` what `checkLimit` accepts. Both conditions pass to the
first parts of a list, which is why a reader may give up as soon as one of them fails.
-/

namespace TimePhrase

@[simp] theorem refuse_bind {α β : Type} (e : ExpressionError) (f : α → Except Failure β) :
    (refuse e >>= f) = refuse e := rfl

@[simp] theorem refuse_ne_ok {α : Type} (e : ExpressionError) (a : α) :
    ¬ refuse e = (.ok a : Except Failure α) := by
  simp [refuse]

/-- A refusal under a condition is the demand that the condition fail. -/
@[simp] theorem ite_refuse_eq_ok_iff {α : Type} {c : Prop} [Decidable c] {e : ExpressionError}
    {x : Except Failure α} {a : α} :
    (if c then refuse e else x) = .ok a ↔ ¬ c ∧ x = .ok a := by
  by_cases hc : c <;> simp [hc]

/-- A refusal that names a part does not succeed, whether or not the part has a description. -/
@[simp] theorem named_bind_refuse_ne_ok {α : Type} (name : Except Undescribed String)
    (f : String → ExpressionError) (a : α) :
    ¬ (named name >>= fun text => refuse (f text)) = (.ok a : Except Failure α) := by
  cases name <;> simp [named, refuse, bind, Except.bind]

namespace Scope

/-- The scopes share no unit. -/
def Disjoint (s t : Scope) : Prop := ∀ u, ¬ (s.has u = true ∧ t.has u = true)

theorem Disjoint.symm {s t : Scope} (h : s.Disjoint t) : t.Disjoint s :=
  fun u hu => h u hu.symm

theorem disjoint_empty (s : Scope) : empty.Disjoint s := fun u hu => by simp [empty] at hu

theorem meets_eq_false_iff {s t : Scope} : s.meets t = false ↔ s.Disjoint t := by
  simp only [meets, TimeUnit.all, List.any_cons, List.any_nil, Bool.or_false, Bool.or_eq_false_iff,
    Bool.and_eq_false_iff]
  constructor
  · rintro ⟨hyear, hmonth, hweek, hday, hhour, hminute⟩ u hu
    cases u <;> simp_all
  · intro h
    have hunit (u : TimeUnit) : s.has u = false ∨ t.has u = false := by
      cases hs : s.has u
      · exact Or.inl rfl
      · exact Or.inr (Bool.not_eq_true _ ▸ fun ht => h u ⟨hs, ht⟩)
    exact ⟨hunit _, hunit _, hunit _, hunit _, hunit _, hunit _⟩

theorem disjoint_union_iff {r s t : Scope} :
    (r.union s).Disjoint t ↔ r.Disjoint t ∧ s.Disjoint t := by
  simp only [Disjoint, union, Bool.or_eq_true]
  constructor
  · intro h
    exact ⟨fun u hu => h u ⟨Or.inl hu.1, hu.2⟩, fun u hu => h u ⟨Or.inr hu.1, hu.2⟩⟩
  · rintro ⟨hr, hs⟩ u ⟨hrs | hrs, ht⟩
    · exact hr u ⟨hrs, ht⟩
    · exact hs u ⟨hrs, ht⟩

end Scope

/-- Content in which no unit is settled twice, nor by one of the units settled before. -/
theorem checkScopes_eq_ok_iff {settled : Scope} {content : List Content} :
    checkScopes settled content = .ok () ↔ (∀ c ∈ content, settled.Disjoint c.scope) ∧
      content.Pairwise fun c d => c.scope.Disjoint d.scope := by
  induction content generalizing settled with
  | nil => simp [checkScopes]
  | cons c rest ih =>
    rw [checkScopes]
    by_cases hmeets : settled.meets c.scope = true
    · have hnot : ¬ settled.Disjoint c.scope := fun h => by
        simp [Scope.meets_eq_false_iff.2 h] at hmeets
      simp [hmeets, hnot]
    · have hdisjoint : settled.Disjoint c.scope :=
        Scope.meets_eq_false_iff.1 (Bool.not_eq_true _ ▸ hmeets)
      rw [if_neg hmeets, ih, List.pairwise_cons, List.forall_mem_cons]
      simp only [Scope.disjoint_union_iff]
      constructor
      · rintro ⟨hall, hrest⟩
        exact ⟨⟨hdisjoint, fun d hd => (hall d hd).1⟩, fun d hd => (hall d hd).2, hrest⟩
      · rintro ⟨⟨_, hsettled⟩, hc, hrest⟩
        exact ⟨fun d hd => ⟨hsettled d hd, hc d hd⟩, hrest⟩

theorem checkRepetition_eq_ok_iff {content : List Content} :
    checkRepetition content = .ok () ↔
      ((∃ c ∈ content, c.isAbsolute = true) → ∀ c ∈ content, c.isLooped = false) := by
  unfold checkRepetition
  cases hfind : content.find? Content.isAbsolute with
  | none =>
    have hnone : ∀ c ∈ content, c.isAbsolute = false := by simpa using hfind
    simp only [pure_eq_ok, true_iff]
    rintro ⟨c, hc, habsolute⟩
    simp [hnone c hc] at habsolute
  | some fixed =>
    have hfixed : ∃ c ∈ content, c.isAbsolute = true :=
      ⟨fixed, List.mem_of_find?_eq_some hfind, List.find?_some hfind⟩
    by_cases hlooped : content.any Content.isLooped = true
    · have hsome : ¬ ∀ c ∈ content, c.isLooped = false := by simpa using hlooped
      simp [hlooped, hfixed, hsome]
    · have hall : ∀ c ∈ content, c.isLooped = false := by simpa using hlooped
      simpa [hlooped, hfixed] using hall

theorem checkFixedDate_eq_ok_iff {content : List Content} :
    checkFixedDate content = .ok () ↔
      ((∃ c ∈ content, c.isAbsolute = true) → ∀ c ∈ content, c.fitsFixedDate = true) := by
  unfold checkFixedDate
  by_cases habsolute : content.any Content.isAbsolute = true
  · have hfixed : ∃ c ∈ content, c.isAbsolute = true := by simpa using habsolute
    rw [if_pos habsolute]
    cases hfind : content.find? (!·.fitsFixedDate) with
    | none =>
      have hall : ∀ c ∈ content, c.fitsFixedDate = true := by simpa using hfind
      simp only [pure_eq_ok, true_iff]
      exact fun _ => hall
    | some other =>
      have hother : other ∈ content := List.mem_of_find?_eq_some hfind
      have hunfit : other.fitsFixedDate = false := by simpa using List.find?_some hfind
      simp only [named_bind_refuse_ne_ok, false_iff]
      intro h
      simp [h hfixed other hother] at hunfit
  · have hnone : ¬ ∃ c ∈ content, c.isAbsolute = true := by simpa using habsolute
    simp [habsolute, hnone]

/-- The limiters among parts follow all content, some of which repeats, and are on different
sides. -/
structure ValidLimiters (parts : List Part) : Prop where
  last : parts.Pairwise fun p q => p.isLimiter = true → q.isLimiter = true
  looped : (∃ p ∈ parts, p.isLimiter = true) → ∃ c ∈ contents parts, c.isLooped = true
  sides : (parts.filterMap Part.side?).Nodup

theorem dropWhile_any_eq_false_iff (parts : List Part) :
    (parts.dropWhile (!·.isLimiter)).any (!·.isLimiter) = false ↔
      parts.Pairwise fun p q => p.isLimiter = true → q.isLimiter = true := by
  induction parts with
  | nil => simp
  | cons p rest ih =>
    rw [List.pairwise_cons]
    by_cases hp : p.isLimiter = true
    · have hrest : (∀ q ∈ rest, q.isLimiter = true) →
          rest.Pairwise fun p q => p.isLimiter = true → q.isLimiter = true :=
        fun hall => List.pairwise_iff_forall_sublist.2 fun hsub _ =>
          hall _ (hsub.subset (by simp))
      simp only [List.dropWhile_cons, hp, Bool.not_true, Bool.false_eq_true, if_false,
        List.any_cons, Bool.false_or, List.any_eq_false, Bool.not_eq_true', forall_const]
      simp only [Bool.not_eq_false]
      exact ⟨fun h => ⟨h, hrest h⟩, fun h => h.1⟩
    · simp only [List.dropWhile_cons, hp, Bool.not_false, if_true, ih, Bool.false_eq_true,
        false_implies, implies_true, true_and]

theorem isEmpty_sides_iff {parts : List Part} :
    (parts.filterMap Part.side?).isEmpty = false ↔ ∃ p ∈ parts, p.isLimiter = true := by
  have hside (p : Part) : p.side? = none ↔ p.isLimiter = false := by
    cases p <;> simp [Part.side?, Part.isLimiter]
  rw [← Bool.not_eq_true, List.isEmpty_iff, List.filterMap_eq_nil_iff]
  simp only [hside, Classical.not_forall, Bool.not_eq_false, exists_prop]

theorem checkLimiters_eq_ok_iff {parts : List Part} :
    checkLimiters parts = .ok () ↔ ValidLimiters parts := by
  unfold checkLimiters
  by_cases hlimited : (parts.filterMap Part.side?).isEmpty = false
  · have hsome := isEmpty_sides_iff.1 hlimited
    have hlastIff := dropWhile_any_eq_false_iff parts
    have hcontent (h : ∃ c ∈ contents parts, c.isLooped = true) : contents parts ≠ [] := by
      obtain ⟨c, hc, _⟩ := h
      exact List.ne_nil_of_mem hc
    simp only [hlimited, Bool.not_false, if_true, refuse_bind, ite_refuse_eq_ok_iff, pure_eq_ok,
      and_true, Bool.not_eq_true]
    rw [hlastIff]
    simp only [Bool.not_eq_false', decide_eq_true_eq, List.isEmpty_eq_false_iff, List.any_eq_true]
    constructor
    · rintro ⟨hlast, _, hlooped, hsides⟩
      exact ⟨hlast, fun _ => hlooped, hsides⟩
    · rintro ⟨hlast, hlooped, hsides⟩
      exact ⟨hlast, hcontent (hlooped hsome), hlooped hsome, hsides⟩
  · have hnone := mt isEmpty_sides_iff.2 hlimited
    have hsides : parts.filterMap Part.side? = [] := by simpa using hlimited
    have hlast : parts.Pairwise fun p q => p.isLimiter = true → q.isLimiter = true :=
      List.pairwise_iff_forall_sublist.2 fun hsub hp =>
        absurd ⟨_, hsub.subset (by simp), hp⟩ hnone
    simp only [hsides, List.isEmpty_nil, Bool.not_true, Bool.false_eq_true, if_false, pure_eq_ok,
      true_iff]
    exact ⟨hlast, fun h => absurd h hnone, by simp [hsides]⟩

/-- Parts that can be the first parts of a valid expression: no repetition beside a fixed date,
no unit settled twice, nothing but points other than weekdays beside a fixed date, and limiters
in their places. -/
structure ValidParts (parts : List Part) : Prop where
  repetition : (∃ c ∈ contents parts, c.isAbsolute = true) →
    ∀ c ∈ contents parts, c.isLooped = false
  scopes : (contents parts).Pairwise fun c d => c.scope.Disjoint d.scope
  fixedDate : (∃ c ∈ contents parts, c.isAbsolute = true) →
    ∀ c ∈ contents parts, c.fitsFixedDate = true
  limiters : ValidLimiters parts

theorem checkParts_eq_ok_iff {parts : List Part} :
    checkParts parts = .ok () ↔ ValidParts parts := by
  unfold checkParts
  simp only [check_bind_eq_ok_iff, checkRepetition_eq_ok_iff, checkScopes_eq_ok_iff,
    checkFixedDate_eq_ok_iff, checkLimiters_eq_ok_iff, Scope.disjoint_empty, implies_true, true_and]
  constructor
  · rintro ⟨hrepetition, hscopes, hfixedDate, hlimiters⟩
    exact ⟨hrepetition, hscopes, hfixedDate, hlimiters⟩
  · rintro ⟨hrepetition, hscopes, hfixedDate, hlimiters⟩
    exact ⟨hrepetition, hscopes, hfixedDate, hlimiters⟩

/-- Parts that can stand behind a limiter: valid ones without limiters and repetitions. -/
structure ValidLimit (parts : List Part) : Prop where
  plain : ∀ p ∈ parts, p.isLimiter = false ∧ p.isLooped = false
  valid : ValidParts parts

theorem checkLimitParts_eq_ok_iff {parts : List Part} :
    checkLimitParts parts = .ok () ↔ ∀ p ∈ parts, p.isLimiter = false ∧ p.isLooped = false := by
  induction parts with
  | nil => simp [checkLimitParts]
  | cons p rest ih =>
    rw [checkLimitParts]
    by_cases hlooped : p.isLooped = true
    · simp [hlooped]
    · simp [hlooped, ih]

theorem checkLimit_eq_ok_iff {parts : List Part} :
    checkLimit parts = .ok () ↔ ValidLimit parts := by
  unfold checkLimit
  rw [check_bind_eq_ok_iff, checkLimitParts_eq_ok_iff, checkParts_eq_ok_iff]
  exact ⟨fun ⟨hplain, hvalid⟩ => ⟨hplain, hvalid⟩, fun ⟨hplain, hvalid⟩ => ⟨hplain, hvalid⟩⟩

theorem contents_append (parts more : List Part) :
    contents (parts ++ more) = contents parts ++ contents more :=
  List.filterMap_append

theorem contents_map_content (content : List Content) :
    contents (content.map .content) = content := by
  rw [contents, List.filterMap_map]
  exact List.filterMap_some

/-- Parts that are made of content alone hold no limiter. -/
theorem isLimiter_of_mem_map_content {content : List Content} {part : Part}
    (h : part ∈ content.map .content) : part.isLimiter = false := by
  obtain ⟨c, -, rfl⟩ := List.mem_map.1 h
  rfl

theorem contents_eq_nil_of_limiters {parts : List Part} (h : ∀ p ∈ parts, p.isLimiter = true) :
    contents parts = [] := by
  rw [contents, List.filterMap_eq_nil_iff]
  intro p hp
  have hlimiter := h p hp
  cases p <;> simp_all [Part.isLimiter, Part.content?]

/-- The first parts of valid parts are valid. -/
theorem ValidParts.of_append {parts more : List Part} (h : ValidParts (parts ++ more)) :
    ValidParts parts := by
  have hsub : ∀ c ∈ contents parts, c ∈ contents (parts ++ more) := fun c hc => by
    rw [contents_append]
    exact List.mem_append_left _ hc
  have habsolute : (∃ c ∈ contents parts, c.isAbsolute = true) →
      ∃ c ∈ contents (parts ++ more), c.isAbsolute = true :=
    fun ⟨c, hc, habsolute⟩ => ⟨c, hsub c hc, habsolute⟩
  have hscopes := h.scopes
  have hlast := h.limiters.last
  have hsides := h.limiters.sides
  rw [contents_append, List.pairwise_append] at hscopes
  rw [List.pairwise_append] at hlast
  rw [List.filterMap_append, List.nodup_append] at hsides
  refine ⟨fun hfixed c hc => h.repetition (habsolute hfixed) c (hsub c hc), hscopes.1,
    fun hfixed c hc => h.fixedDate (habsolute hfixed) c (hsub c hc), hlast.1, ?_, hsides.1⟩
  rintro ⟨p, hp, hlimiter⟩
  obtain ⟨c, hc, hlooped⟩ := h.limiters.looped ⟨p, List.mem_append_left _ hp, hlimiter⟩
  -- nothing but limiters follows a limiter, so all content stands among the first parts
  rw [contents_append, contents_eq_nil_of_limiters fun q hq => hlast.2.2 p hp q hq hlimiter,
    List.append_nil] at hc
  exact ⟨c, hc, hlooped⟩

/-- The first parts of a valid limit are a valid limit. -/
theorem ValidLimit.of_append {parts more : List Part} (h : ValidLimit (parts ++ more)) :
    ValidLimit parts :=
  ⟨fun p hp => h.plain p (List.mem_append_left _ hp), h.valid.of_append⟩

/-- What stands behind the last limiter does not matter for the parts around it. -/
theorem ValidParts.replace_limit {parts : List Part} {side : Side} {limit : Option (List Part)}
    (other : Option (List Part)) (h : ValidParts (parts ++ [.limiter side limit])) :
    ValidParts (parts ++ [.limiter side other]) := by
  have hcontents : contents (parts ++ [.limiter side other]) =
      contents (parts ++ [.limiter side limit]) := by
    rw [contents_append, contents_append]
    rfl
  have hlast := List.pairwise_append.1 h.limiters.last
  refine ⟨hcontents ▸ h.repetition, hcontents ▸ h.scopes, hcontents ▸ h.fixedDate, ?_, ?_, ?_⟩
  · refine List.pairwise_append.2 ⟨hlast.1, List.pairwise_singleton .., fun p hp q hq _ => ?_⟩
    rw [List.mem_singleton.1 hq]
    rfl
  · rw [hcontents]
    exact fun _ => h.limiters.looped ⟨_, List.mem_append_right _ (List.mem_singleton.2 rfl), rfl⟩
  · have hsides := h.limiters.sides
    rw [List.filterMap_append] at hsides ⊢
    exact hsides

/-- Of limiters on different sides the first one on a side is the only one. -/
theorem find?_limiter {parts : List Part} {side : Side} {limit : Option (List Part)}
    (hsides : (parts.filterMap Part.side?).Nodup) (hmem : .limiter side limit ∈ parts) :
    parts.find? (fun p => p.side? = some side) = some (.limiter side limit) := by
  induction parts with
  | nil => exact absurd hmem List.not_mem_nil
  | cons p rest ih =>
    rcases List.mem_cons.1 hmem with rfl | hmem
    · simp [Part.side?]
    · have hrest : side ∈ rest.filterMap Part.side? := List.mem_filterMap.2 ⟨_, hmem, rfl⟩
      cases hp : p.side? with
      | none =>
        rw [List.filterMap_cons_none hp] at hsides
        simpa [hp] using ih hsides hmem
      | some other =>
        rw [List.filterMap_cons_some hp, List.nodup_cons] at hsides
        have hne : other ≠ side := fun heq => hsides.1 (heq ▸ hrest)
        simpa [hp, hne] using ih hsides.2 hmem

namespace Term

variable {term : Term} {parts : List Part} {reference : DateTime} {defaultTime : TimeOfDay}

/-- Parts without limiters limit neither side. -/
theorem limiter?_eq_none (h : ∀ part ∈ term.parts, part.isLimiter = false) (side : Side) :
    term.limiter? side = none := by
  refine List.find?_eq_none.2 fun part hpart => ?_
  have hcontent := h part hpart
  cases part with
  | content c => simp [Part.side?]
  | limiter side limit => cases hcontent

theorem limit?_eq_none (h : ∀ part ∈ term.parts, part.isLimiter = false) (side : Side) :
    term.limit? side = none := by
  rw [limit?, limiter?_eq_none h]

theorem checkSide_eq_ok_iff {side : Side} : term.checkSide side = .ok () ↔
    term.limiter? side = none ∨ ∃ limit, term.limit? side = some limit ∧ ValidLimit limit.parts := by
  unfold checkSide
  cases hlimiter : term.limiter? side with
  | none => simp
  | some limiter =>
    cases hlimit : term.limit? side with
    | none => simp
    | some limit => simp [checkLimit_eq_ok_iff]

/-- An expression consists of valid parts with some content, valid limits, and time between the
limits. -/
theorem ofParts_eq_ok_iff : ofParts parts reference defaultTime = .ok term ↔
    term = ⟨parts⟩ ∧ ValidParts parts ∧ contents parts ≠ [] ∧
      (∀ side, (⟨parts⟩ : Term).checkSide side = .ok ()) ∧
      ∃ bounds, (⟨parts⟩ : Term).bounds reference defaultTime = .ok bounds ∧
        ∀ lower ∈ bounds.lower, ∀ upper ∈ bounds.upper, lower < upper := by
  have hsides : (∀ side, (⟨parts⟩ : Term).checkSide side = .ok ()) ↔
      (⟨parts⟩ : Term).checkSide .lower = .ok () ∧ (⟨parts⟩ : Term).checkSide .upper = .ok () := by
    refine ⟨fun h => ⟨h .lower, h .upper⟩, ?_⟩
    rintro ⟨hlower, hupper⟩ side
    cases side
    · exact hlower
    · exact hupper
  simp only [ofParts, check_bind_eq_ok_iff, checkParts_eq_ok_iff, refuse_bind,
    ite_refuse_eq_ok_iff, hsides, List.isEmpty_iff, Term.content]
  rw [bind_eq_ok_iff]
  constructor
  · rintro ⟨hvalid, hcontent, hlower, hupper, bounds, hlimits, hresult⟩
    have hbetween : term = ⟨parts⟩ ∧
        ∀ lower ∈ bounds.lower, ∀ upper ∈ bounds.upper, lower < upper := by
      obtain ⟨_ | lower, _ | upper⟩ := bounds
      · simpa using hresult.symm
      · simpa using hresult.symm
      · simpa using hresult.symm
      · obtain ⟨hlt, heq⟩ := ite_refuse_eq_ok_iff.1 hresult
        exact ⟨(Except.ok.inj heq).symm, by simpa [DateTime.not_le] using hlt⟩
    exact ⟨hbetween.1, hvalid, hcontent, ⟨hlower, hupper⟩, bounds, hlimits, hbetween.2⟩
  · rintro ⟨rfl, hvalid, hcontent, ⟨hlower, hupper⟩, bounds, hlimits, hbetween⟩
    refine ⟨hvalid, hcontent, hlower, hupper, bounds, hlimits, ?_⟩
    obtain ⟨_ | lower, _ | upper⟩ := bounds
    · rfl
    · rfl
    · rfl
    · exact if_neg (DateTime.not_le.2 (hbetween lower rfl upper rfl))

/-- Behind every limiter of an expression there is a valid limit. -/
theorem validLimit_of_ofParts {side : Side} {limit : Option (List Part)}
    (h : ofParts parts reference defaultTime = .ok term) (hmem : .limiter side limit ∈ parts) :
    ∃ limitParts, limit = some limitParts ∧ ValidLimit limitParts := by
  obtain ⟨-, hvalid, -, hsides, -⟩ := ofParts_eq_ok_iff.1 h
  have hlimiter : (⟨parts⟩ : Term).limiter? side = some (.limiter side limit) :=
    find?_limiter hvalid.limiters.sides hmem
  rcases checkSide_eq_ok_iff.1 (hsides side) with hnone | ⟨limitTerm, hlimit, hvalidLimit⟩
  · simp [hlimiter] at hnone
  · rw [limit?, hlimiter] at hlimit
    obtain ⟨limitParts, rfl, rfl⟩ := Option.map_eq_some_iff.1 hlimit
    exact ⟨limitParts, rfl, hvalidLimit⟩

end Term

end TimePhrase
