import TimePhrase.Proofs.Part.Recurrence

/-!
# Counts that lead forward

A positive count of a unit leads to a later instant, and one that is not negative does not lead
back. Of days and longer units a single one leads to a later day.
-/

namespace TimePhrase

namespace DateTime

variable {t m : DateTime} {unit : TimeUnit} {count : Int}

theorem toDays_lt_of_addSpan? (hunit : unit.isDayOrCoarser = true) (hcount : 0 < count)
    (h : t.addSpan? unit count = some m) : t.date.toDays < m.date.toDays := by
  have hrank : unit.rank ≤ TimeUnit.day.rank := by
    cases unit <;> simp [TimeUnit.isDayOrCoarser, TimeUnit.rank] at hunit ⊢
  -- Days are the cycles of a time of day.
  exact Point.cycleIndex_lt_of_addSpan? (p := .time .midnight false) rfl hrank hcount h

theorem lt_of_addMicros? {micros : Nat} (hmicros : 0 < micros) (hcount : 0 < count)
    (h : t.addMicros? (micros * count) = some m) : t < m := by
  have hmoved := addMicros?_eq_some_iff.1 h
  have hforward : 0 < (micros : Int) * count := Int.mul_pos (by omega) hcount
  exact lt_def.2 (by omega)

/-- A positive count of a unit leads to a later instant. -/
theorem lt_of_addSpan? (hcount : 0 < count) (h : t.addSpan? unit count = some m) : t < m := by
  by_cases hunit : unit.isDayOrCoarser = true
  · exact lt_iff.2 (Or.inl (toDays_lt_of_addSpan? hunit hcount h))
  · cases unit with
    | hour => exact lt_of_addMicros? (by decide) hcount h
    | minute => exact lt_of_addMicros? (by decide) hcount h
    | _ => exact absurd rfl hunit

/-- None of a unit leaves an instant in place. -/
theorem addSpan?_zero (t : DateTime) (unit : TimeUnit) : t.addSpan? unit 0 = some t := by
  have hday := t.date.day_bounds.2
  have hmonths : t.addMonths? 0 = some t := addMonths?_eq_some_iff.2 ⟨⟨by omega, by omega⟩, rfl⟩
  have hdays : t.addDays? 0 = some t := addDays?_eq_some_iff.2 ⟨by omega, rfl⟩
  have hmicros : t.addMicros? 0 = some t := addMicros?_eq_some_iff.2 (by omega)
  cases unit with
  | year | month => exact hmonths
  | week | day => exact hdays
  | hour | minute => rw [addSpan?, Int.mul_zero, hmicros]

/-- A count of a unit that is not negative does not lead back. -/
theorem le_of_addSpan? (hcount : 0 ≤ count) (h : t.addSpan? unit count = some m) : t ≤ m := by
  rcases Int.lt_or_eq_of_le hcount with hpos | rfl
  · exact le_of_lt (lt_of_addSpan? hpos h)
  · rw [addSpan?_zero] at h
    exact Option.some.inj h ▸ Nat.le_refl _

end DateTime

namespace Span

variable {t m : DateTime} {cs : List (TimeUnit × Int)}

theorem le_of_addCounts? (hcounts : ∀ c ∈ cs, 0 ≤ c.2) (h : addCounts? t cs = some m) : t ≤ m := by
  induction cs generalizing t with
  | nil => exact Option.some.inj h ▸ Nat.le_refl _
  | cons c rest ih =>
    obtain ⟨hcount, hcounts⟩ := List.forall_mem_cons.1 hcounts
    obtain ⟨moved, hmoved, hrest⟩ := Option.bind_eq_some_iff.1 h
    exact DateTime.le_trans (DateTime.le_of_addSpan? hcount hmoved) (ih hcounts hrest)

/-- Counts that are not negative lead to a later instant if one of them is positive. -/
theorem lt_of_addCounts? (hcounts : ∀ c ∈ cs, 0 ≤ c.2) (hpos : ∃ c ∈ cs, 0 < c.2)
    (h : addCounts? t cs = some m) : t < m := by
  induction cs generalizing t with
  | nil =>
    obtain ⟨c, hc, -⟩ := hpos
    exact absurd hc List.not_mem_nil
  | cons c rest ih =>
    obtain ⟨hcount, hrestCounts⟩ := List.forall_mem_cons.1 hcounts
    obtain ⟨moved, hmoved, hrest⟩ := Option.bind_eq_some_iff.1 h
    obtain ⟨positive, hmem, hpositive⟩ := hpos
    rcases List.mem_cons.1 hmem with rfl | hmem
    · exact DateTime.lt_of_lt_of_le (DateTime.lt_of_addSpan? hpositive hmoved)
        (le_of_addCounts? hrestCounts hrest)
    · exact DateTime.lt_of_le_of_lt (DateTime.le_of_addSpan? hcount hmoved)
        (ih hrestCounts ⟨positive, hmem, hpositive⟩ hrest)

/-- The span leads back to no earlier instant. -/
def LeadsForward : Span → Prop
  | counts cs _ => ∀ c ∈ cs, 0 < c.2
  | days count => 0 ≤ count

theorem LeadsForward.le_of_moveTo? {s : Span} {fenced : Bool} (h : s.LeadsForward)
    (hmoved : s.moveTo? t fenced = some m) : t ≤ m := by
  cases s with
  | days count =>
    have hmoved : t.addSpan? .day count = some m := hmoved
    exact DateTime.le_of_addSpan? h hmoved
  | counts cs looped =>
    cases fenced with
    | false => exact le_of_addCounts? (fun c hc => Int.le_of_lt (h c hc)) hmoved
    | true => exact le_of_addCounts? (fun c hc => Int.le_of_lt (h c (List.mem_filter.1 hc).1)) hmoved

end Span

end TimePhrase
