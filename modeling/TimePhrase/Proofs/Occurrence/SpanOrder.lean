import TimePhrase.Proofs.Occurrence.Order
import TimePhrase.Proofs.Occurrence.Shift
import TimePhrase.Proofs.Part.Forward

/-!
# Spans and the order of instants

A span whose counts are not negative leads forward, and its years and months come first. These keep
dates in order, but may lead two days to one, the last of a short month, where each instant keeps
its time of day. All shorter units shift both instants alike. Two instants are therefore taken out
of their order exactly where the years and months make one day of their days and the earlier
instant has the later time of day.
-/

namespace TimePhrase

namespace Span

variable {cs : List (TimeUnit × Int)} {looped : Bool} {unit : TimeUnit}
  {count : Int} {t u m k a b : DateTime}

/-- The span takes one instant to another: it moves it there or, if it repeats, advances it there. -/
def Takes (s : Span) (t u : DateTime) : Prop :=
  s.moveTo? t false = some u ∨ s.advance t = .ok u

theorem takes_counts_iff : (counts cs looped).Takes t u ↔ addCounts? t cs = some u := by
  have hadvance : (counts cs true).advance t = .ok u ↔ addCounts? t cs = some u := by
    rw [advance]
    cases addCounts? t cs <;> simp
  constructor
  · rintro (hmove | hadvanced)
    · exact hmove
    · cases looped with
      | false => cases hadvanced
      | true => exact hadvance.1 hadvanced
  · exact Or.inl

theorem addCounts?_append (first second : List (TimeUnit × Int)) (t : DateTime) :
    addCounts? t (first ++ second) = (addCounts? t first).bind (addCounts? · second) := by
  induction first generalizing t with
  | nil => rfl
  | cons c rest ih =>
    rw [List.cons_append, addCounts?, addCounts?]
    cases t.addSpan? c.1 c.2 with
    | none => rfl
    | some moved => exact ih moved

theorem addCounts?_singleton : addCounts? t [(unit, count)] = t.addSpan? unit count :=
  bind_pure _

/-- Moves by days or longer units change the date alone. -/
theorem onDate_of_addCounts? (hcs : ∀ c ∈ cs, c.1.isDayOrCoarser = true)
    (h : addCounts? t cs = some u) : u = t.onDate u.date := by
  induction cs generalizing t with
  | nil => exact Option.some.inj h ▸ rfl
  | cons c rest ih =>
    obtain ⟨hc, hrest⟩ := List.forall_mem_cons.1 hcs
    obtain ⟨moved, hmoved, hlast⟩ := Option.bind_eq_some_iff.1 h
    have hdate : moved = t.onDate moved.date := by
      obtain ⟨unit, count⟩ := c
      cases unit with
      | year | month => exact (DateTime.addMonths?_eq_some_iff.1 hmoved).2
      | week | day => exact (DateTime.addDays?_eq_some_iff.1 hmoved).2
      | hour | minute => cases hc
    rw [ih hrest hlast, hdate]
    rfl

/-- The years and months among the counts. -/
def yearsAndMonths (cs : List (TimeUnit × Int)) : List (TimeUnit × Int) :=
  cs.filter (·.1.rank ≤ TimeUnit.month.rank)

/-- The counts of weeks and shorter units, from long to short. -/
def fixedCounts (cs : List (TimeUnit × Int)) : List (TimeUnit × Int) :=
  [TimeUnit.week, .day, .hour, .minute].flatMap fun unit => cs.filter (·.1 = unit)

theorem filter_yearsAndMonths (cs : List (TimeUnit × Int)) (unit : TimeUnit) :
    (yearsAndMonths cs).filter (·.1 = unit) =
      if unit.rank ≤ TimeUnit.month.rank then cs.filter (·.1 = unit) else [] := by
  unfold yearsAndMonths
  rw [List.filter_filter]
  split
  · rename_i hrank
    refine List.filter_congr fun c _ => ?_
    by_cases hc : c.1 = unit <;> simp [hc, hrank]
  · rename_i hrank
    refine List.filter_eq_nil_iff.2 fun c _ => ?_
    by_cases hc : c.1 = unit <;> simp [hc, hrank]

/-- A span moves by its years and months first. -/
theorem takes_ofCounts_iff : (ofCounts cs looped).Takes t m ↔
    ∃ a, (ofCounts (yearsAndMonths cs) looped).Takes t a ∧
      addCounts? a (fixedCounts cs) = some m := by
  have hsplit : TimeUnit.all.flatMap (fun unit => cs.filter (·.1 = unit)) =
      TimeUnit.all.flatMap (fun unit => (yearsAndMonths cs).filter (·.1 = unit)) ++
        fixedCounts cs := by
    simp [filter_yearsAndMonths, TimeUnit.all, fixedCounts, TimeUnit.rank]
  rw [ofCounts, ofCounts, takes_counts_iff, hsplit, addCounts?_append, Option.bind_eq_some_iff]
  exact exists_congr fun a => and_congr_left' takes_counts_iff.symm

/-- Shifting by weeks and shorter units keeps the order of instants. -/
theorem le_iff_of_fixedCounts (hm : addCounts? a (fixedCounts cs) = some m)
    (hk : addCounts? b (fixedCounts cs) = some k) : m ≤ k ↔ a ≤ b := by
  have hfixed : ∀ c ∈ fixedCounts cs, c.1.IsFixed := by
    intro c hc
    obtain ⟨unit, hunit, hc⟩ := List.mem_flatMap.1 hc
    obtain rfl : c.1 = unit := of_decide_eq_true (List.mem_filter.1 hc).2
    have hunits : ∀ unit ∈ [TimeUnit.week, .day, .hour, .minute],
        TimeUnit.week.rank ≤ unit.rank := by decide
    exact hunits c.1 hunit
  rw [addCounts?_eq_foldlM hfixed] at hm hk
  have hmicros := DateTime.toMicros_of_foldlM_addMicros? hm
  have hmicros' := DateTime.toMicros_of_foldlM_addMicros? hk
  rw [DateTime.le_def, DateTime.le_def]
  omega

/-- Years and months keep the order of two instants unless they make one day of their days and the
earlier instant has the later time of day. -/
theorem le_iff_of_yearsAndMonths (htu : t ≤ u)
    (ha : (ofCounts (yearsAndMonths cs) looped).Takes t a)
    (hb : (ofCounts (yearsAndMonths cs) looped).Takes u b) :
    a ≤ b ↔ (a.date = b.date → t.microsOfDay ≤ u.microsOfDay) := by
  have hunits : ∀ c ∈ TimeUnit.all.flatMap (fun unit => (yearsAndMonths cs).filter (·.1 = unit)),
      c.1.isDayOrCoarser = true := by
    intro c hc
    have hrank : c.1.rank ≤ TimeUnit.month.rank :=
      of_decide_eq_true (List.mem_filter.1 (mem_sortedCounts.1 hc)).2
    cases hunit : c.1 <;> simp_all [TimeUnit.isDayOrCoarser, TimeUnit.rank]
  rw [ofCounts, takes_counts_iff] at ha hb
  have hdates := keepsOrder_addCounts? hunits (DateTime.toDays_le_of_le htu) ha hb
  have hatime : a.microsOfDay = t.microsOfDay := by rw [onDate_of_addCounts? hunits ha]; rfl
  have hbtime : b.microsOfDay = u.microsOfDay := by rw [onDate_of_addCounts? hunits hb]; rfl
  rw [← DateTime.not_lt, DateTime.lt_iff, hatime, hbtime]
  constructor
  · intro hnot hdate
    rw [hdate] at hnot
    omega
  · intro htimes hlt
    have hdays : a.date.toDays = b.date.toDays := by omega
    have hle := htimes (Date.eq_of_toDays_eq hdays)
    omega

theorem lt_of_takes_ofCounts (hcs : ∀ c ∈ cs, 0 ≤ c.2) (hpos : ∃ c ∈ cs, 0 < c.2)
    (h : (ofCounts cs looped).Takes t m) : t < m := by
  obtain ⟨positive, hmem, hpositive⟩ := hpos
  exact lt_of_addCounts? (fun c hc => hcs c (mem_sortedCounts.1 hc))
    ⟨positive, mem_sortedCounts.2 hmem, hpositive⟩ (takes_counts_iff.1 h)

/-- The instant lies so many months after another one: on the same day of the month, or on the last
day of a month that is too short, and at the same time of day. -/
structure IsMonthsAfter (m t : DateTime) (count : Int) : Prop where
  month : (m.date.monthIndex : Int) = t.date.monthIndex + count
  day : m.date.day = min t.date.day (daysInMonth m.date.year m.date.month)
  time : m = t.onDate m.date

theorem addMonths?_eq_some_iff_isMonthsAfter :
    t.addMonths? count = some m ↔ IsMonthsAfter m t count := by
  rw [DateTime.addMonths?_eq_some_iff]
  exact ⟨fun ⟨⟨hmonth, hday⟩, htime⟩ => ⟨hmonth, hday, htime⟩,
    fun h => ⟨⟨h.month, h.day⟩, h.time⟩⟩

/-- A span of counts that are not all zero, and none negative, leads forward. It takes two instants
in their order to others in the same order, unless its years and months make one day of their days
and the earlier instant has the later time of day. A number of months or years alone leads to the
month at that distance. -/
theorem takes_inOrder :
    (∀ {cs : List (TimeUnit × Int)} {looped : Bool} {t u m k : DateTime}, (∀ c ∈ cs, 0 ≤ c.2) →
      (∃ c ∈ cs, 0 < c.2) → t ≤ u → (ofCounts cs looped).Takes t m →
      (ofCounts cs looped).Takes u k → t < m ∧
        ∃ a b, (ofCounts (yearsAndMonths cs) looped).Takes t a ∧
          (ofCounts (yearsAndMonths cs) looped).Takes u b ∧
          (m ≤ k ↔ (a.date = b.date → t.microsOfDay ≤ u.microsOfDay))) ∧
    ∀ (count : Int) (looped : Bool) (t m : DateTime),
      ((ofCounts [(.month, count)] looped).Takes t m ↔ IsMonthsAfter m t count) ∧
      ((ofCounts [(.year, count)] looped).Takes t m ↔ IsMonthsAfter m t (12 * count)) := by
  constructor
  · intro cs looped t u m k hcs hpos htu hm hk
    obtain ⟨a, ha, hma⟩ := takes_ofCounts_iff.1 hm
    obtain ⟨b, hb, hkb⟩ := takes_ofCounts_iff.1 hk
    refine ⟨lt_of_takes_ofCounts hcs hpos hm, a, b, ha, hb, ?_⟩
    rw [le_iff_of_fixedCounts hma hkb]
    exact le_iff_of_yearsAndMonths htu ha hb
  · intro count looped t m
    have hsingle (unit : TimeUnit) : ofCounts [(unit, count)] looped =
        .counts [(unit, count)] looped := by
      cases unit <;> rfl
    rw [hsingle, hsingle, takes_counts_iff, takes_counts_iff, addCounts?_singleton,
      addCounts?_singleton]
    exact ⟨addMonths?_eq_some_iff_isMonthsAfter, addMonths?_eq_some_iff_isMonthsAfter⟩

/-- One month and one day after 30 January at nine and 31 January at one in the afternoon it is the
first of March at these times of day. -/
theorem takes_inOrder_marchFirst :
    let t : DateTime := ⟨⟨2025, 1, 30, by decide⟩, 9, 0, 0, 0⟩
    let u : DateTime := ⟨⟨2025, 1, 31, by decide⟩, 13, 0, 0, 0⟩
    let m : DateTime := ⟨⟨2025, 3, 1, by decide⟩, 9, 0, 0, 0⟩
    let k : DateTime := ⟨⟨2025, 3, 1, by decide⟩, 13, 0, 0, 0⟩
    let s : Span := ofCounts [(.day, 1), (.month, 1)] true
    s.Takes t m ∧ s.Takes u k ∧ t < m ∧ m ≤ k ∧
      IsMonthsAfter ⟨⟨2025, 2, 28, by decide⟩, 9, 0, 0, 0⟩ t 1 := by
  intro t u m k s
  have hm : s.Takes t m := Or.inl (by decide +kernel)
  have hk : s.Takes u k := Or.inr (by decide +kernel)
  obtain ⟨hforward, a, b, -, -, horder⟩ :=
    takes_inOrder.1 (by decide) (by decide) (by decide) hm hk
  exact ⟨hm, hk, hforward, horder.2 fun _ => by decide,
    (takes_inOrder.2 1 false t _).1.1 (Or.inl (by decide +kernel))⟩

/-- Months may take two instants out of their order: after 30 January at one in the afternoon and
31 January at nine in the morning, one month and one day lead to the same day. -/
theorem not_forall_le_of_takes : ¬ ∀ (cs : List (TimeUnit × Int)) (looped : Bool)
    (t u m k : DateTime), (∀ c ∈ cs, 0 ≤ c.2) → (∃ c ∈ cs, 0 < c.2) → t ≤ u →
    (ofCounts cs looped).Takes t m → (ofCounts cs looped).Takes u k → t < m ∧ m ≤ k := by
  intro h
  have hmonth := h [(.month, 1), (.day, 1)] true
    ⟨⟨2025, 1, 30, by decide⟩, 13, 0, 0, 0⟩ ⟨⟨2025, 1, 31, by decide⟩, 9, 0, 0, 0⟩
    ⟨⟨2025, 3, 1, by decide⟩, 13, 0, 0, 0⟩ ⟨⟨2025, 3, 1, by decide⟩, 9, 0, 0, 0⟩
    (by decide) (by decide) (by decide) (Or.inl (by decide +kernel)) (Or.inl (by decide +kernel))
  exact absurd hmonth.2 (by decide)

end Span

end TimePhrase
