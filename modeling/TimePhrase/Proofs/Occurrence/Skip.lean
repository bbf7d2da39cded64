import TimePhrase.Proofs.Occurrence.Search

/-!
# Searches that pass over nothing

A later search starts from a later first candidate. If no advance passes over a first candidate,
then no advance passes over any candidate at all, of whatever search. The candidates of two
searches then fit together, and the later search does not end before the earlier one.
-/

namespace TimePhrase

namespace Plan

variable {plan : Plan} {c d m start : DateTime}

/-- The instant is a candidate of some search by the plan. -/
inductive Reached (plan : Plan) : DateTime → Prop
  | first {start c : DateTime} (h : plan.settle? plan.steps start = some c) : Reached plan c
  | next {c m : DateTime} (hc : Reached plan c) (h : plan.advance c = .ok (some m)) :
    Reached plan m

/-- No advance of a candidate passes over the first candidate of another search. -/
def PassesNoStart (plan : Plan) : Prop :=
  ∀ ⦃start c d m⦄, plan.Reached c → plan.settle? plan.steps start = some d → c < d →
    plan.advance c = .ok (some m) → m ≤ d

/-- Where no advance passes over a first candidate, none passes over any candidate. -/
theorem PassesNoStart.le_of_advance (h : plan.PassesNoStart) (hc : plan.Reached c)
    (hd : plan.Reached d) (hcd : c < d) (hm : plan.advance c = .ok (some m)) : m ≤ d := by
  -- By induction on the candidate that might be passed over, which comes from an earlier one.
  induction hmicros : d.toMicros using Nat.strongRecOn generalizing c d m with
  | ind micros ih =>
    subst hmicros
    cases hd with
    | first hstart => exact h hc hstart hcd hm
    | next he hd =>
      rename_i e
      have hed := lt_of_advance hd
      rcases DateTime.lt_or_eq_or_gt c e with hlt | rfl | hgt
      · exact DateTime.le_trans (ih e.toMicros hed hc he hlt hm rfl) (DateTime.le_of_lt hed)
      · exact Nat.le_of_eq (congrArg DateTime.toMicros
          (Option.some.inj (Except.ok.inj (hm.symm.trans hd))))
      · have hdc : d ≤ c := ih c.toMicros hcd he hc hgt hd rfl
        exact absurd hcd (DateTime.not_lt.2 hdc)

/-- The first candidates of searches are in the order of the instants that they start from. -/
def StartsInOrder (plan : Plan) : Prop :=
  ∀ ⦃start start' c c'⦄, start ≤ start' → plan.settle? plan.steps start = some c →
    plan.settle? plan.steps start' = some c' → c ≤ c'

end Plan

namespace Threshold

variable {since since' t : DateTime} {strict : Bool} {lower : Option DateTime}

/-- An earlier search admits whatever a later one admits. -/
theorem admits_of_le (h : since ≤ since')
    (hadmits : (Threshold.of since' strict lower).admits t = true) :
    (Threshold.of since strict lower).admits t = true := by
  obtain ⟨hsince, hstrict, hlower⟩ := admits_of_iff.1 hadmits
  exact admits_of_iff.2 ⟨DateTime.le_trans h hsince,
    fun htrue => DateTime.lt_of_le_of_lt h (hstrict htrue), hlower⟩

/-- Of two searches, the later one excludes its start if the earlier one does. -/
theorem strict_of_le (h : since ≤ since')
    (hstrict : (Threshold.of since strict lower).strict = true) :
    (Threshold.of since' strict lower).strict = true := by
  cases lower with
  | none => exact hstrict
  | some bound =>
    simp only [Threshold.of] at hstrict ⊢
    split at hstrict
    · cases hstrict
    · rename_i hbound
      rw [if_neg fun hlater => hbound (DateTime.lt_of_le_of_lt h hlater)]
      exact hstrict

theorem start_le_of_le (h : since ≤ since') :
    (Threshold.of since strict lower).start ≤ (Threshold.of since' strict lower).start := by
  cases lower with
  | none => exact h
  | some bound =>
    simp only [Threshold.of]
    by_cases hlater : since' < bound
    · rw [if_pos hlater, if_pos (DateTime.lt_of_le_of_lt h hlater)]
      exact Nat.le_refl _
    · rw [if_neg hlater]
      split
      · exact DateTime.not_lt.1 hlater
      · exact h

end Threshold

namespace Term

variable {term : Term} {plan : Plan} {since since' result result' : DateTime} {strict : Bool}
  {bounds : Bounds}

/-- Where searches start in order and advances pass over nothing, a later search does not end
before an earlier one. -/
theorem le_of_searchBy (horder : plan.StartsInOrder) (hpass : plan.PassesNoStart)
    (hle : since ≤ since') (h : term.searchBy plan since strict bounds = .ok result)
    (h' : term.searchBy plan since' strict bounds = .ok result') : result ≤ result' := by
  obtain ⟨first, hfirst, hrun, -⟩ := searchBy_eq_ok_iff.1 h
  obtain ⟨first', hfirst', hrun', -⟩ := searchBy_eq_ok_iff.1 h'
  obtain ⟨⟨hreached', hfirstLe⟩, hadmits'⟩ : (plan.Reached result' ∧ first' ≤ result') ∧
      (Threshold.of since' strict bounds.lower).admits result' = true := by
    refine of_advanceUntil (P := fun t => plan.Reached t ∧ first' ≤ t)
      ⟨.first hfirst', Nat.le_refl _⟩ ?_ hrun'
    rintro t u ⟨ht, htle⟩ - hadvance
    exact ⟨ht.next hadvance,
      DateTime.le_trans htle (DateTime.le_of_lt (Plan.lt_of_advance hadvance))⟩
  have hadmits := Threshold.admits_of_le hle hadmits'
  have hstart : first ≤ first' := horder (Threshold.start_le_of_le hle) hfirst hfirst'
  obtain ⟨hrunLe, -⟩ : (plan.Reached result ∧ result ≤ result') ∧
      (Threshold.of since strict bounds.lower).admits result = true := by
    refine of_advanceUntil (P := fun t => plan.Reached t ∧ t ≤ result')
      ⟨.first hfirst, DateTime.le_trans hstart hfirstLe⟩ ?_ hrun
    rintro t u ⟨ht, htle⟩ hearly hadvance
    -- The result of the later search would do, so a candidate that does not lies before it.
    have hlt : t < result' := by
      rcases DateTime.lt_or_eq_or_gt t result' with hlt | rfl | hgt
      · exact hlt
      · exact absurd hadmits hearly
      · exact absurd hgt (DateTime.not_lt.2 htle)
    exact ⟨ht.next hadvance, hpass.le_of_advance ht hreached' hlt hadvance⟩
  exact hrunLe.2

end Term

end TimePhrase
