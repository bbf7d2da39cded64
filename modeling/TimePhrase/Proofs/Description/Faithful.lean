import TimePhrase.Proofs.Description.Whole

/-!
# Descriptions that lose nothing

Some content says all that it is when it is described: only the form of a time of day is left out,
and numbers that the calendar does not have cannot be read. All other content is read back from its
description by the recognizer for its kind.
-/

namespace TimePhrase

open Recognizer (Distinct ofKind)

namespace Content

/-- Content that is described without loss. The counts of a span may be given in any order. -/
inductive Faithful : Content → Prop
  | time (clock : TimeOfDay) : Faithful (.point (.time clock false))
  | date {y m d : Nat} (h : IsDate y m d) : Faithful (.point (.date d m (some (y : Int)) false))
  /-- A date without a year is one of some year. -/
  | dateOfAnyYear {m d : Nat} (h : ∃ y, IsDate y m d) (looped : Bool) :
    Faithful (.point (.date d m none looped))
  | monthDay {d : Int} (h : 1 ≤ d ∧ d ≤ 31) (looped : Bool) : Faithful (.point (.monthDay d looped))
  | weekday {n : Int} (h : 1 ≤ n ∧ n ≤ 7) (looped : Bool) : Faithful (.point (.weekday n looped))
  | month {n : Int} (h : 1 ≤ n ∧ n ≤ 12) (looped : Bool) : Faithful (.point (.month n looped))
  | year {y : Int} (h : 1 ≤ y ∧ y ≤ 9999) : Faithful (.point (.year y))
  | days {count : Nat} (h : count ≤ 2) : Faithful (.span (.days count))
  | counts {cs : List (TimeUnit × Int)} (hne : cs ≠ []) (hunits : Distinct cs)
    (hshort : ShortCounts cs) (looped : Bool) : Faithful (.span (.ofCounts cs looped))

variable {c : Content}

theorem Faithful.plain_eq (h : c.Faithful) : c.plain = c := by
  cases h <;> rfl

theorem Faithful.inRange (h : c.Faithful) : c.InRange := by
  cases h with
  | time clock => trivial
  | @date y m d h =>
    obtain ⟨date, hdate⟩ := Date.of?_isSome h
    simp [InRange, Point.InRange, hdate]
  | @dateOfAnyYear m d h looped =>
    obtain ⟨y, h⟩ := h
    have hleap : IsDate 2000 m d := (isDate_leapYear_iff ⟨h.1, h.2.1⟩).2 (.inl h)
    obtain ⟨date, hdate⟩ := Date.of?_isSome hleap
    exact Option.isSome_iff_exists.2 ⟨date, hdate⟩
  | monthDay h looped => exact h
  | weekday h looped => exact h
  | month h looped => exact h
  | year h => exact h
  | days h => exact ⟨Int.natCast_nonneg _, lt_pow_maxDigits (by omega)⟩
  | counts hne hunits hshort looped =>
    exact @Recognizer.inRange_ofCounts _ looped hunits hshort hne

theorem Faithful.expressible (h : c.Faithful) : c.Expressible := by
  cases h with
  | date h => rfl
  | days h => exact Int.ofNat_le.2 h
  | _ => trivial

/-- The recognizer for the kind of the content reads its description to the end and finds the
content itself. -/
theorem ofKind_of_faithful (h : c.Faithful) :
    ∃ text, c.describe = .ok text ∧
      ofKind c.kind .english text.toList = .ok (some ⟨.content c, []⟩) := by
  obtain ⟨text, htext⟩ := exists_describe h.inRange
  refine ⟨text, htext, ?_⟩
  have hend : Continues [] [] := .inl ⟨rfl, rfl⟩
  have hday : ∀ cs, c = .span (.counts cs true) → ¬ "da".toList <+: [] := by
    intro cs _ hprefix
    exact absurd (List.prefix_nil.1 hprefix) (by decide)
  have hread := ofKind_describe h.inRange h.expressible htext hend hday
  rwa [h.plain_eq, List.append_nil] at hread

/-- Counts are described from the coarsest unit to the finest and read back in that order, a count
of zero like any other. -/
theorem ofKind_of_faithful_everyWeek :
    let c : Content := .span (.ofCounts [(.minute, 90), (.week, 1), (.day, 0)] true)
    c.Faithful ∧ c.describe = .ok "every 1 week and 0 days and 90 minutes" ∧
      ofKind .span .english "every 1 week and 0 days and 90 minutes".toList =
        .ok (some ⟨.content c, []⟩) := by
  intro c
  have hshort : ShortCounts [(.minute, 90), (.week, 1), (.day, 0)] := by
    have hlarge : 90 < 10 ^ Text.maxDigits :=
      Nat.lt_of_lt_of_le (by decide : 90 < 10 ^ 2) (Nat.pow_le_pow_right (by decide) (by decide))
    intro e he
    simp only [List.mem_cons, List.not_mem_nil, or_false] at he
    rcases he with rfl | rfl | rfl
    · exact ⟨90, rfl, hlarge⟩
    · exact ⟨1, rfl, by omega⟩
    · exact ⟨0, rfl, by omega⟩
  have hfaithful : c.Faithful := .counts (by decide) (by unfold Distinct; decide) hshort true
  have hdescribe : c.describe = .ok "every 1 week and 0 days and 90 minutes" := by decide
  obtain ⟨text, htext, hread⟩ := ofKind_of_faithful hfaithful
  obtain rfl := Except.ok.inj (hdescribe.symm.trans htext)
  exact ⟨hfaithful, hdescribe, hread⟩

end Content

end TimePhrase
