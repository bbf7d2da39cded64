import TimePhrase.Proofs.Occurrence.Search

/-!
# The rounds of a search

A search is given up after a number of advances. It ends of its own accord earlier than that if
some measure of the candidates that are too early grows with every advance and stays below a bound.
Any larger number of advances then gives the same result.
-/

namespace TimePhrase

namespace Plan

/-- The advances of a candidate end, after so many of them, with the one that is late enough, or
without one. -/
inductive EndsAfter (plan : Plan) (threshold : Threshold) :
    Nat → DateTime → Option DateTime → Prop
  | admitted {t : DateTime} (h : threshold.admits t = true) :
    EndsAfter plan threshold 0 t (some t)
  | exhausted {t : DateTime} (hearly : ¬ threshold.admits t = true)
    (h : plan.advance t = .ok none) : EndsAfter plan threshold 1 t none
  | advanced {rounds : Nat} {t u : DateTime} {result : Option DateTime}
    (hearly : ¬ threshold.admits t = true) (h : plan.advance t = .ok (some u))
    (hrest : EndsAfter plan threshold rounds u result) :
    EndsAfter plan threshold (rounds + 1) t result

variable {plan : Plan} {threshold : Threshold} {c : DateTime}

/-- Advances end if a measure of the candidates that are too early grows and is bounded. -/
theorem exists_endsAfter {P : DateTime → Prop} {measure : DateTime → Nat} {bound : Nat}
    (hadvance : ∀ t, ∃ next, plan.advance t = .ok next)
    (hstep : ∀ t u, P t → plan.advance t = .ok (some u) → P u)
    (hgrows : ∀ t u, P t → plan.advance t = .ok (some u) → ¬ threshold.admits u = true →
      measure t < measure u)
    (hbound : ∀ t, P t → ¬ threshold.admits t = true → measure t < bound) (hc : P c) :
    ∃ rounds ≤ bound - measure c, ∃ result, plan.EndsAfter threshold rounds c result := by
  induction hleft : bound - measure c using Nat.strongRecOn generalizing c with
  | ind left ih =>
    subst hleft
    by_cases hadmits : threshold.admits c = true
    · exact ⟨0, Nat.zero_le _, _, .admitted hadmits⟩
    have hbelow := hbound c hc hadmits
    obtain ⟨next, hnext⟩ := hadvance c
    cases next with
    | none => exact ⟨1, by omega, _, .exhausted hadmits hnext⟩
    | some u =>
      by_cases hlate : threshold.admits u = true
      · exact ⟨1, by omega, _, .advanced hadmits hnext (.admitted hlate)⟩
      · have hmore := hgrows c u hc hnext hlate
        obtain ⟨rounds, hrounds, result, hends⟩ :=
          ih (bound - measure u) (by omega) (hstep c u hc hnext) rfl
        exact ⟨rounds + 1, by omega, result, .advanced hadmits hnext hends⟩

/-- Searches by the plan end of their own accord, after no more than `limit` advances. -/
def EndsWithin (plan : Plan) (limit : Nat) : Prop :=
  ∀ threshold first, plan.settle? plan.steps threshold.start = some first →
    ∃ rounds ≤ limit, ∃ result, plan.EndsAfter threshold rounds first result

theorem EndsWithin.mono {limit other : Nat} (h : plan.EndsWithin limit) (hle : limit ≤ other) :
    plan.EndsWithin other := by
  intro threshold first hfirst
  obtain ⟨rounds, hrounds, ends⟩ := h threshold first hfirst
  exact ⟨rounds, Nat.le_trans hrounds hle, ends⟩

end Plan

namespace Term

variable {term : Term} {plan : Plan} {since : DateTime} {strict : Bool} {threshold : Threshold}
  {defaultTime : TimeOfDay} {c : DateTime} {result : Option DateTime} {rounds cap : Nat}

/-- What the advances of a candidate come to when they end of their own accord. -/
def outcome (term : Term) (since : DateTime) : Option DateTime → Except Failure DateTime
  | some t => .ok t
  | none => do refuse (.neverOccurs (← named term.describe) since)

theorem advanceUntil_of_endsAfter (h : plan.EndsAfter threshold rounds c result)
    (hcap : rounds ≤ cap) :
    term.advanceUntil plan since threshold cap c = term.outcome since result := by
  induction h generalizing cap with
  | admitted hadmits => exact advanceUntil_of_admits cap hadmits
  | exhausted hearly hadvance =>
    obtain ⟨fewer, rfl⟩ := Nat.exists_eq_add_of_le' hcap
    rw [advanceUntil, if_neg hearly, hadvance, ok_bind]
    rfl
  | advanced hearly hadvance hrest ih =>
    obtain ⟨fewer, rfl⟩ := Nat.exists_eq_add_of_le' hcap
    rw [← Nat.add_assoc, advanceUntil_of_advance hearly hadvance]
    exact ih (Nat.le_add_left ..)

/-- The bounds that a search is held to, when every search is given up after `cap` advances. -/
def boundsForWithin (term : Term) (cap : Nat) (since : DateTime) (defaultTime : TimeOfDay) :
    Option Bounds → Except Failure Bounds
  | some given => .ok given
  | none => term.boundsWithin cap since defaultTime

section Caps

variable {limit other : Nat} {bounds : Option Bounds}

theorem nextWithin_eq_ofTerm_bind :
    term.nextWithin cap since strict defaultTime bounds =
      (Plan.ofTerm term defaultTime >>= fun plan =>
        term.boundsForWithin cap since defaultTime bounds >>=
          term.searchWithin cap plan since strict) := by
  cases bounds <;> rfl

/-- Where searches end of their own accord, a larger number of advances changes nothing. -/
theorem searchWithin_eq (h : plan.EndsWithin limit) (hcap : limit ≤ cap) (hother : limit ≤ other) :
    term.searchWithin cap plan since strict = term.searchWithin other plan since strict := by
  funext limits
  unfold searchWithin
  dsimp only
  cases hfirst : plan.settle? plan.steps (Threshold.of since strict limits.lower).start with
  | none => rfl
  | some first =>
    obtain ⟨rounds, hrounds, result, hends⟩ := h _ first hfirst
    simp only [advanceUntil_of_endsAfter hends (Nat.le_trans hrounds hcap),
      advanceUntil_of_endsAfter hends (Nat.le_trans hrounds hother)]

theorem nextWithin_eq (h : (Plan.forTerm term defaultTime).EndsWithin limit) (hcap : limit ≤ cap)
    (hother : limit ≤ other) (hbounds : term.boundsForWithin cap since defaultTime bounds =
      term.boundsForWithin other since defaultTime bounds) :
    term.nextWithin cap since strict defaultTime bounds =
      term.nextWithin other since strict defaultTime bounds := by
  rw [nextWithin_eq_ofTerm_bind, nextWithin_eq_ofTerm_bind, hbounds]
  cases hplan : Plan.ofTerm term defaultTime with
  | error failure => rfl
  | ok plan =>
    obtain ⟨-, rfl⟩ := Plan.ofTerm_eq_ok_iff.1 hplan
    rw [ok_bind, ok_bind, searchWithin_eq h hcap hother]

/-- The limits of a term stand for the same instants if their searches lead to the same. -/
theorem boundsWithin_congr (h : ∀ side limit, term.limit? side = some limit →
      limit.nextWithin cap since false defaultTime none =
        limit.nextWithin other since false defaultTime none) :
    term.boundsWithin cap since defaultTime = term.boundsWithin other since defaultTime := by
  have hbound (side : Side) : term.boundOnWithin cap since defaultTime side =
      term.boundOnWithin other since defaultTime side := by
    unfold boundOnWithin
    cases hlimit : term.limit? side with
    | none => rfl
    | some limit => simp only [h side limit hlimit]
  rw [boundsWithin_eq, boundsWithin_eq, hbound, hbound]

end Caps

end Term

/-- The operation does not fail because a search was given up. -/
def Concludes {α : Type} (x : Except Failure α) : Prop :=
  ∀ text since, x ≠ .error (.expression (.notFound text since))

section Conclusions

variable {term : Term} {since : DateTime} {strict : Bool} {defaultTime : TimeOfDay}
  {bounds : Option Bounds} {limit cap : Nat}

theorem concludes_ok {α : Type} (a : α) : Concludes (.ok a : Except Failure α) := nofun

theorem Concludes.bind {α β : Type} {x : Except Failure α} {f : α → Except Failure β}
    (hx : Concludes x) (hf : ∀ a, x = .ok a → Concludes (f a)) : Concludes (x >>= f) := by
  intro text since h
  rcases bind_eq_error_iff.1 h with h | ⟨a, ha, h⟩
  · exact hx text since h
  · exact hf a ha text since h

theorem concludes_named (description : Except Undescribed String) :
    Concludes (named description) := by
  cases description with
  | ok text => nofun
  | error cause => cases cause <;> nofun

theorem concludes_outcome (result : Option DateTime) : Concludes (term.outcome since result) := by
  cases result with
  | some t => exact concludes_ok t
  | none => exact (concludes_named _).bind fun _ _ => nofun

theorem concludes_ofTerm : Concludes (Plan.ofTerm term defaultTime) := by
  simp only [Plan.ofTerm, refuse_bind]
  split
  · exact (concludes_named _).bind fun _ _ => nofun
  · exact concludes_ok _

/-- A limit whose search is given up falls back on what the limit says. -/
theorem concludes_orApply (limit : Term) (result : Except Failure DateTime) :
    Concludes (limit.orApply since defaultTime result) := by
  unfold Term.orApply
  split
  · split
    · refine concludes_ofTerm.bind fun plan _ => ?_
      split
      · exact concludes_ok _
      · nofun
    · rename_i error hkind
      rintro text start h
      cases h
      exact hkind rfl
  · rename_i hother
    exact fun text start h => hother _ h

theorem concludes_boundsForWithin :
    Concludes (term.boundsForWithin cap since defaultTime bounds) := by
  have hbound (side : Side) : Concludes (term.boundOnWithin cap since defaultTime side) := by
    unfold Term.boundOnWithin
    split
    · exact concludes_ok _
    · exact (concludes_orApply _ _).bind fun _ _ => concludes_ok _
  cases bounds with
  | some given => exact concludes_ok given
  | none =>
    rw [Term.boundsForWithin, Term.boundsWithin_eq]
    exact (hbound .lower).bind fun _ _ => (hbound .upper).bind fun _ _ => concludes_ok _

/-- Where searches end of their own accord, none that may take as many advances is given up. -/
theorem concludes_nextWithin (h : (Plan.forTerm term defaultTime).EndsWithin limit)
    (hcap : limit ≤ cap) : Concludes (term.nextWithin cap since strict defaultTime bounds) := by
  rw [Term.nextWithin_eq_ofTerm_bind]
  refine concludes_ofTerm.bind fun plan hplan =>
    concludes_boundsForWithin.bind fun limits _ => ?_
  obtain ⟨-, rfl⟩ := Plan.ofTerm_eq_ok_iff.1 hplan
  unfold Term.searchWithin
  dsimp only
  split
  · nofun
  · rename_i first hfirst
    obtain ⟨rounds, hrounds, result, hends⟩ := h _ first hfirst
    rw [Term.advanceUntil_of_endsAfter hends (Nat.le_trans hrounds hcap)]
    refine (concludes_outcome result).bind fun candidate _ => ?_
    split
    · split
      · nofun
      · exact concludes_ok _
    · exact concludes_ok _

end Conclusions

end TimePhrase
