import Mathlib.Data.List.Nodup
import Mathlib.Data.List.Pairwise
import TimePhrase.Occurrence
import TimePhrase.Proofs.Part.Motion
import TimePhrase.Proofs.Validity

/-!
# The plan of a valid expression

The points of a valid expression settle different units, so from coarse to fine each stands
above all those behind it. Moving through them in this order therefore leads to an instant that
lies on all of them. A time of day stands last, and decides the time of day of the result. The order
of the points in the text has no part in it.
-/

namespace TimePhrase

namespace Point

variable {p q : Point}

/-- Points of the same granularity settle a unit in common. -/
theorem granularity_ne_of_disjoint (h : p.scope.Disjoint q.scope) :
    p.granularity ≠ q.granularity := by
  intro heq
  have hday := h .day
  have hhour := h .hour
  have hmonth := h .month
  have hyear := h .year
  revert heq hday hhour hmonth hyear
  cases p with
  | date d m y looped =>
    cases y <;> cases q with
    | date d' m' y' looped' => cases y' <;> simp [granularity, scope, Scope.of]
    | _ => simp [granularity, scope, Scope.of, Scope.monthDay]
  | _ =>
    cases q with
    | date d' m' y' looped' => cases y' <;> simp [granularity, scope, Scope.of, Scope.monthDay]
    | _ => simp [granularity, scope, Scope.of, Scope.monthDay]

/-- A coarser point that settles other units stands above, unless it fixes the year of a
weekday. -/
theorem above_of_disjoint (hlt : p.granularity < q.granularity)
    (hdisjoint : p.scope.Disjoint q.scope)
    (hfixed : p.isAbsolute = true → q.kind ≠ .weekday) : p.Above q := by
  have hday := hdisjoint .day
  have hmonth := hdisjoint .month
  revert hlt hday hmonth hfixed
  cases p with
  | date d m y looped =>
    cases y <;> cases q with
    | date d' m' y' looped' => cases y' <;> simp [granularity, scope, Scope.of, Above]
    | _ => simp [granularity, scope, Scope.of, Scope.monthDay, Above]
  | _ =>
    cases q with
    | date d' m' y' looped' =>
      cases y' <;> simp [granularity, scope, Scope.of, Scope.monthDay, Above]
    | _ => simp [granularity, scope, Scope.of, Scope.monthDay, Above, isAbsolute, kind]

theorem granularity_le (p : Point) : p.granularity ≤ 3 := by
  unfold granularity
  split
  · omega
  · split
    · omega
    · split <;> omega

end Point

theorem mem_coarseToFine {points : List Point} {p : Point} :
    p ∈ coarseToFine points ↔ p ∈ points := by
  have hle := p.granularity_le
  have hcases : p.granularity = 0 ∨ p.granularity = 1 ∨ p.granularity = 2 ∨ p.granularity = 3 := by
    omega
  simp only [coarseToFine, List.mem_flatMap, List.mem_filter, decide_eq_true_eq, List.mem_cons,
    List.not_mem_nil, or_false]
  constructor
  · rintro ⟨_, _, hp, _⟩
    exact hp
  · intro hp
    exact ⟨_, hcases, hp, rfl⟩

/-- In the plan of a valid expression every point stands above those behind it. -/
theorem pairwise_above_coarseToFine {points : List Point}
    (hscopes : points.Pairwise fun p q => p.scope.Disjoint q.scope)
    (hfixed : ∀ p ∈ points, ∀ q ∈ points, p.isAbsolute = true → q.kind ≠ .weekday) :
    (coarseToFine points).Pairwise Point.Above := by
  have hsymm : Std.Symm fun p q : Point => p.scope.Disjoint q.scope := ⟨fun _ _ h => h.symm⟩
  rw [coarseToFine, List.pairwise_flatMap]
  constructor
  · intro g _
    refine (hscopes.filter _).imp_of_mem fun hp hq hdisjoint => ?_
    have hp := of_decide_eq_true (List.mem_filter.1 hp).2
    have hq := of_decide_eq_true (List.mem_filter.1 hq).2
    exact absurd (hp.trans hq.symm) (Point.granularity_ne_of_disjoint hdisjoint)
  · have hsorted : [0, 1, 2, 3].Pairwise fun g g' : Nat => g < g' := by decide
    refine hsorted.imp fun hlt p hp q hq => ?_
    obtain ⟨hp, hgp⟩ := List.mem_filter.1 hp
    obtain ⟨hq, hgq⟩ := List.mem_filter.1 hq
    have hgran : p.granularity < q.granularity := by
      rw [of_decide_eq_true hgp, of_decide_eq_true hgq]
      exact hlt
    have hne : p ≠ q := fun heq => by simp [heq] at hgran
    exact Point.above_of_disjoint hgran (hscopes.forall hp hq hne) (hfixed p hp q hq)

/-- The points of a term in the order of the text. -/
def Term.points (term : Term) : List Point := term.content.filterMap Content.point?

/-- The spans of a term in the order of the text. -/
def Term.spans (term : Term) : List Span := term.content.filterMap Content.span?

theorem Term.mem_points {term : Term} {p : Point} :
    p ∈ term.points ↔ Content.point p ∈ term.content := by
  simp only [points, List.mem_filterMap]
  constructor
  · rintro ⟨c, hc, hp⟩
    cases c with
    | point q => exact Option.some.inj hp ▸ hc
    | span s => simp [Content.point?] at hp
  · intro hc
    exact ⟨_, hc, rfl⟩

theorem Term.mem_spans {term : Term} {s : Span} :
    s ∈ term.spans ↔ Content.span s ∈ term.content := by
  simp only [spans, List.mem_filterMap]
  constructor
  · rintro ⟨c, hc, hs⟩
    cases c with
    | span r => exact Option.some.inj hs ▸ hc
    | point p => simp [Content.span?] at hs
  · intro hc
    exact ⟨_, hc, rfl⟩

/-- The points of a term from coarse to fine. -/
def Term.ladder (term : Term) : List Point := coarseToFine term.points

theorem Term.mem_ladder {term : Term} {p : Point} :
    p ∈ term.ladder ↔ Content.point p ∈ term.content :=
  mem_coarseToFine.trans mem_points

theorem Term.mem_ladder_iff {term : Term} {p : Point} : p ∈ term.ladder ↔ p ∈ term.points :=
  mem_coarseToFine

theorem Term.ladder_eq_nil_iff {term : Term} : term.ladder = [] ↔ term.points = [] := by
  simp only [List.eq_nil_iff_forall_not_mem, mem_ladder_iff]

/-- In a valid term every point stands above the finer ones. -/
theorem ValidParts.pairwise_above {term : Term} (h : ValidParts term.parts) :
    term.ladder.Pairwise Point.Above := by
  apply pairwise_above_coarseToFine
  · refine List.Pairwise.filterMap _ ?_ h.scopes
    intro c d hdisjoint p hp q hq
    cases c <;> cases d <;> simp_all [Content.point?, Content.scope]
  · intro p hp q hq habsolute hweekday
    have hfits := h.fixedDate ⟨_, Term.mem_points.1 hp, habsolute⟩ _ (Term.mem_points.1 hq)
    cases q with
    | weekday n looped => simp [Content.fitsFixedDate] at hfits
    | time clock inverted => cases inverted <;> simp [Point.kind] at hweekday
    | _ => simp [Point.kind] at hweekday

theorem Scope.has_foldl_union {scopes : List Scope} {s : Scope} {u : TimeUnit} :
    (scopes.foldl union s).has u = true ↔ s.has u = true ∨ ∃ r ∈ scopes, r.has u = true := by
  induction scopes generalizing s with
  | nil => simp
  | cons r rest ih => simp [ih, union, or_assoc]

theorem Scope.has_sup {scopes : List Scope} {u : TimeUnit} :
    (sup scopes).has u = true ↔ ∃ s ∈ scopes, s.has u = true := by
  simp [sup, has_foldl_union, empty]

namespace Plan

/-- The plan of a term that has content. -/
def forTerm (term : Term) (defaultTime : TimeOfDay) : Plan where
  steps := term.spans.map (Step.ofSpan term.points) ++ term.ladder.map (Step.ofPoint term.points)
  pinned := .sup (term.spans.map Span.scope)
  defaultTime :=
    if (term.points.any fun p => TimeUnit.all.any fun u => u.isDayOrCoarser && p.scope.has u) &&
        !(term.scope.has .hour || term.scope.has .minute) then some defaultTime
    else none

theorem ofTerm_eq_ok_iff {term : Term} {defaultTime : TimeOfDay} {plan : Plan} :
    ofTerm term defaultTime = .ok plan ↔ term.content ≠ [] ∧ plan = .forTerm term defaultTime := by
  unfold ofTerm
  by_cases hempty : term.content.isEmpty = true
  · have hnil : term.content = [] := List.isEmpty_iff.1 hempty
    simp only [hnil, List.isEmpty_nil, if_true, refuse_bind, ne_eq, not_true, false_and, iff_false]
    exact named_bind_refuse_ne_ok _ _ _
  · have hne : term.content ≠ [] := mt List.isEmpty_iff.2 hempty
    simp only [hempty, if_false, pure_eq_ok, Except.ok.injEq, ne_eq, hne, not_false_eq_true,
      true_and, Bool.false_eq_true]
    exact eq_comm

end Plan

section Order

theorem eq_of_perm_of_length_le_one {α : Type} {l l' : List α} (h : l.Perm l')
    (hlength : l'.length ≤ 1) : l = l' := by
  cases l' with
  | nil => exact h.eq_nil
  | cons a rest =>
    have hrest : rest.length = 0 := by
      rw [List.length_cons] at hlength
      omega
    obtain rfl := List.eq_nil_of_length_eq_zero hrest
    exact List.perm_singleton.1 h

/-- Where no two points are equally coarse, their order in the text does not matter. -/
theorem coarseToFine_eq_of_perm {points other : List Point} (h : points.Perm other)
    (hone : (other.map Point.granularity).Nodup) : coarseToFine points = coarseToFine other := by
  have hlength (g : Nat) : (other.filter (·.granularity = g)).length ≤ 1 := by
    have hcount := List.nodup_iff_count_le_one.1 hone g
    rwa [List.count, List.countP_map, List.countP_eq_length_filter] at hcount
  have hfilter (g : Nat) :
      points.filter (·.granularity = g) = other.filter (·.granularity = g) :=
    eq_of_perm_of_length_le_one (h.filter _) (hlength g)
  simp only [coarseToFine, hfilter]

variable {term other : Term} {defaultTime : TimeOfDay}

/-- A term settles the same units in whatever order its content is given. -/
theorem Term.scope_has_of_perm (h : term.content.Perm other.content) (unit : TimeUnit) :
    term.scope.has unit = other.scope.has unit := by
  rw [Bool.eq_iff_iff, Term.scope, Term.scope, Scope.has_sup, Scope.has_sup]
  simp only [(h.map Content.scope).mem_iff]

/-- Terms with the same content, the spans in the same order and no two points equally coarse,
have the same plan. -/
theorem Plan.forTerm_eq_of_spans_eq (h : term.content.Perm other.content)
    (hspans : term.spans = other.spans) (hone : (other.points.map Point.granularity).Nodup) :
    forTerm term defaultTime = forTerm other defaultTime := by
  have hpoints : term.points.Perm other.points := h.filterMap _
  have hladder : term.ladder = other.ladder := coarseToFine_eq_of_perm hpoints hone
  have hempty : term.points.isEmpty = other.points.isEmpty := hpoints.isEmpty_eq
  have hany (f : Point → Bool) : term.points.any f = other.points.any f := hpoints.any_eq
  have hofSpan : Step.ofSpan term.points = Step.ofSpan other.points := by
    funext s
    rw [Step.ofSpan, Step.ofSpan, hempty]
  have hofPoint : Step.ofPoint term.points = Step.ofPoint other.points := by
    funext p
    rw [Step.ofPoint, Step.ofPoint, hany]
  simp only [forTerm, hspans, hladder, hofSpan, hofPoint, hany, Term.scope_has_of_perm h]

/-- A term with one span, and no two points equally coarse, is planned by its content alone. -/
theorem Plan.forTerm_eq_of_perm (h : term.content.Perm other.content)
    (hspans : other.spans.length ≤ 1) (hone : (other.points.map Point.granularity).Nodup) :
    forTerm term defaultTime = forTerm other defaultTime :=
  forTerm_eq_of_spans_eq h (eq_of_perm_of_length_le_one (h.filterMap _) hspans) hone

/-- No two points of a valid expression are equally coarse. -/
theorem ValidParts.granularity_nodup (h : ValidParts term.parts) :
    (term.points.map Point.granularity).Nodup := by
  rw [List.Nodup, List.pairwise_map]
  refine List.Pairwise.filterMap _ ?_ h.scopes
  intro c d hdisjoint p hp q hq
  cases c with
  | span s => cases hp
  | point p' =>
    cases d with
    | span s => cases hq
    | point q' =>
      obtain rfl := Option.some.inj hp
      obtain rfl := Option.some.inj hq
      exact Point.granularity_ne_of_disjoint hdisjoint

end Order

end TimePhrase
