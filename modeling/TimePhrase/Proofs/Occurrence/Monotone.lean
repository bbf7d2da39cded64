import TimePhrase.Proofs.Occurrence.Ahead
import TimePhrase.Proofs.Occurrence.Shift
import TimePhrase.Schedule

/-!
# Later questions have later answers

Asked again at a later instant, a repetition names an occurrence that is no earlier. This holds of
all terms whose searches keep in step: they move by a fixed length, or keep the rhythm of their
coarsest point, or start ahead of it. It does not hold of all other terms. A month added to two
instants may lead to the same last day of a shorter month, where their times of day may stand the
other way round, and a count of two weeks is taken from the week of the question.
-/

namespace TimePhrase

open Plan

namespace Term

/-- The searches for occurrences of the term keep in step. -/
inductive KeepsStep (term : Term) : Prop
  | fixedLength (h : term.HasFixedLength)
  | rhythm {top : Point} {unit : TimeUnit} (h : term.KeepsRhythm top unit)
  | ahead {top : Point} {unit : TimeUnit} (h : term.StartsAhead top unit)

variable {term : Term} {defaultTime : TimeOfDay} {since since' result result' : DateTime}
  {strict : Bool} {bounds : Bounds}

theorem KeepsStep.le_of_searchBy (h : term.KeepsStep) (hvalid : ValidParts term.parts)
    (hcounts : ∀ s ∈ term.spans, s.HasPositiveCounts) (hle : since ≤ since')
    (hsearch : term.searchBy (forTerm term defaultTime) since strict bounds = .ok result)
    (hsearch' : term.searchBy (forTerm term defaultTime) since' strict bounds = .ok result') :
    result ≤ result' := by
  cases h with
  | fixedLength h => exact h.le_of_searchBy hvalid hcounts hle hsearch hsearch'
  | rhythm h =>
    exact Term.le_of_searchBy (h.startsInOrder hvalid) (h.passesNoStart hvalid) hle hsearch hsearch'
  | ahead h => exact h.le_of_searchBy hvalid hle hsearch hsearch'

end Term

namespace Repeated

variable {parts : List Part} {term : Term} {reference made since since' result result' : DateTime}
  {clock defaultTime : TimeOfDay} {schedule : Repeated}

theorem ofTerm_of_unlimited (h : ∀ side, term.limiter? side = none) :
    ofTerm term made defaultTime = .ok ⟨term, defaultTime, .none⟩ := by
  rw [ofTerm, Term.bounds_of_unlimited h]
  rfl

/-- A later question to a repetition does not have an earlier answer, where the searches keep in
step. -/
theorem next_le_next (hterm : Term.ofParts parts reference clock = .ok term)
    (hcounts : ∀ s ∈ term.spans, s.HasPositiveCounts) (hstep : term.KeepsStep)
    (hmade : ofTerm term made defaultTime = .ok schedule) (hle : since ≤ since')
    (h : schedule.next since = .ok result) (h' : schedule.next since' = .ok result') :
    result ≤ result' := by
  obtain ⟨rfl, hvalid, -⟩ := Term.ofParts_eq_ok_iff.1 hterm
  obtain ⟨bounds, -, hmade⟩ := bind_eq_ok_iff.1 hmade
  obtain rfl := Except.ok.inj hmade
  obtain ⟨-, limits, hlimits, hsearch⟩ := Term.next_eq_ok_iff.1 h
  obtain ⟨-, limits', hlimits', hsearch'⟩ := Term.next_eq_ok_iff.1 h'
  obtain rfl := Except.ok.inj (hlimits.symm.trans hlimits')
  exact hstep.le_of_searchBy hvalid hcounts hle hsearch hsearch'

/-- Every month on the 31st at the given time of day. -/
def monthEnds (clock : TimeOfDay) : Term :=
  ⟨[.content (.span (.counts [(.month, 1)] true)), .content (.point (.monthDay 31 false)),
    .content (.point (.time clock false))]⟩

theorem keepsRhythm_monthEnds : (monthEnds clock).KeepsRhythm (.monthDay 31 false) .month where
  coarsest := rfl
  cycle := rfl
  leavesTime := List.forall_mem_singleton.2 ⟨rfl, rfl⟩
  spans := Or.inr rfl

/-- At nine, the ends of months after two instants of 2025 are in order, as the instants are. -/
theorem next_le_next_monthEnds :
    (⟨⟨2025, 2, 28, by decide⟩, 9, 0, 0, 0⟩ : DateTime) ≤
      ⟨⟨2025, 3, 31, by decide⟩, 9, 0, 0, 0⟩ := by
  have hunlimited : ∀ side, (monthEnds ⟨9, 0⟩).limiter? side = none := fun _ => rfl
  have hterm : Term.ofParts (monthEnds ⟨9, 0⟩).parts ⟨⟨2024, 1, 1, by decide⟩, 0, 0, 0, 0⟩
      .midnight = .ok (monthEnds ⟨9, 0⟩) :=
    Term.ofParts_of_unlimited rfl (List.cons_ne_nil _ _) hunlimited
  have hmade : ofTerm (monthEnds ⟨9, 0⟩) ⟨⟨2024, 1, 1, by decide⟩, 0, 0, 0, 0⟩ .midnight =
      .ok ⟨monthEnds ⟨9, 0⟩, .midnight, .none⟩ := ofTerm_of_unlimited hunlimited
  have hle : (⟨⟨2025, 1, 31, by decide⟩, 10, 0, 0, 0⟩ : DateTime) ≤
      ⟨⟨2025, 2, 28, by decide⟩, 10, 0, 0, 0⟩ := by decide
  exact next_le_next hterm (List.forall_mem_singleton.2 (by simp [Span.HasPositiveCounts]))
    (.rhythm keepsRhythm_monthEnds) hmade hle (by decide +kernel) (by decide +kernel)

/-- Every month from the question on. -/
def everyMonth : Term := ⟨[.content (.span (.counts [(.month, 1)] true))]⟩

/-- A later question may have an earlier answer: a month after 30 January at one in the afternoon
it is the same day as a month after 31 January at nine in the morning. -/
theorem not_forall_next_le_next : ¬ ∀ (parts : List Part) (term : Term)
    (reference made since since' result result' : DateTime) (clock defaultTime : TimeOfDay)
    (schedule : Repeated), Term.ofParts parts reference clock = .ok term → term.isLooped = true →
    (∀ s ∈ term.spans, s.HasPositiveCounts) → ofTerm term made defaultTime = .ok schedule →
    since ≤ since' → schedule.next since = .ok result → schedule.next since' = .ok result' →
    result ≤ result' := by
  intro h
  have hunlimited : ∀ side, everyMonth.limiter? side = none := fun _ => rfl
  have hmonths := h everyMonth.parts everyMonth
    ⟨⟨2024, 1, 1, by decide⟩, 0, 0, 0, 0⟩ ⟨⟨2024, 1, 1, by decide⟩, 0, 0, 0, 0⟩
    ⟨⟨2025, 1, 30, by decide⟩, 13, 0, 0, 0⟩ ⟨⟨2025, 1, 31, by decide⟩, 9, 0, 0, 0⟩
    ⟨⟨2025, 2, 28, by decide⟩, 13, 0, 0, 0⟩ ⟨⟨2025, 2, 28, by decide⟩, 9, 0, 0, 0⟩
    .midnight .midnight ⟨everyMonth, .midnight, .none⟩
    (Term.ofParts_of_unlimited rfl (List.cons_ne_nil _ _) hunlimited) rfl
    (List.forall_mem_singleton.2 (by simp [Span.HasPositiveCounts]))
    (ofTerm_of_unlimited hunlimited) (by decide) (by decide +kernel) (by decide +kernel)
  exact absurd hmonths (by decide)

end Repeated

end TimePhrase
