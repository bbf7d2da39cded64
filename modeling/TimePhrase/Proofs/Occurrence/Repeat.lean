import TimePhrase.Proofs.Occurrence.Pace
import TimePhrase.Proofs.Occurrence.Rounds
import TimePhrase.Proofs.Part.Forward
import TimePhrase.Proofs.Refusal

/-!
# Repetition by one span

A repeating count of the unit by which a point recurs is the distance between the occurrences on
that point. The point itself may not be advanced, for the span has settled its unit, so every
advance is one by the span, and the day is found anew in the month or year that this leads to.
Counts without a point lead from one occurrence to the next as they stand.
-/

namespace TimePhrase

namespace Point

variable {p : Point} {t u a m : DateTime} {fenced : Bool} {unit : TimeUnit} {count : Int}

/-- A weekday that exists has a name, and so has a month that an instant is moved into. -/
theorem writes_describe (hp : p.WeekdayExists) (h : p.moveTo? t fenced = some m) :
    Writes p.numbers p.describe := by
  cases p with
  | time clock inverted => exact writes_ok _
  | date d m y looped =>
    refine (writes_numeral ..).bind fun dayText _ => ?_
    refine (writes_numeral ..).bind fun monthText _ => ?_
    cases y with
    | none => exact writes_ok _
    | some y => exact (writes_numeral ..).map _
  | monthDay d looped => exact (writes_numeral ..).map _
  | weekday n looped =>
    obtain ⟨name, hname⟩ := nameOf?_isSome weekdayNames hp
    rw [describe, nameOf_eq_ok_iff.2 hname]
    exact writes_ok _
  | month n looped =>
    have hmonths := m.date.month_bounds
    have hnumber : 1 ≤ n ∧ n ≤ (12 : Nat) := by
      rw [← (moveTo?_month.1 h).1.2.1]
      omega
    obtain ⟨name, hname⟩ := nameOf?_isSome monthNames hnumber
    rw [describe, nameOf_eq_ok_iff.2 hname]
    exact writes_ok _
  | year y => exact (writes_numeral ..).map _

/-- The date lies so many cycles of the point after another one, on the same point. -/
def IsCyclesAfter (p : Point) (count : Int) (d e : Date) : Prop :=
  match p with
  | time .. => (e.toDays : Int) = d.toDays + count
  | weekday .. => (e.toDays : Int) = d.toDays + 7 * count
  | monthDay n _ => (e.monthIndex : Int) = d.monthIndex + count ∧
    (e.day : Int) = min n (daysInMonth e.year e.month)
  | date n m none _ => (e.year : Int) = d.year + count ∧ (e.month : Int) = m ∧
    (e.day : Int) = min n (daysInMonth e.year e.month)
  | month m _ => (e.year : Int) = d.year + count ∧ (e.month : Int) = m ∧ e.day = 1
  | date _ _ (some _) _ | year _ => False

/-- An instant that has been moved onto a point other than a time of day stays in place there, at
whatever time of day. -/
theorem moveTo?_eq_self (hp : p.WeekdayExists) (htime : p.isTime = false)
    (h : p.moveTo? t fenced = some m) (hu : u.date = m.date) : p.moveTo? u fenced = some u := by
  cases p with
  | time clock inverted => exact absurd htime nofun
  | date d n y looped =>
    obtain ⟨⟨hyear, hmonth, hday⟩, -⟩ := moveTo?_date.1 h
    rw [← hu] at hyear hmonth hday
    refine moveTo?_date.2 ⟨⟨?_, hmonth, hday⟩, rfl⟩
    cases y with
    | none => rfl
    | some y => exact hyear
  | monthDay d looped =>
    have hday := (moveTo?_monthDay.1 h).1.2
    rw [← hu] at hday
    exact moveTo?_monthDay.2 ⟨⟨rfl, hday⟩, rfl⟩
  | weekday n looped =>
    have hweekday := weekday_of_toWeekday? hp h
    rw [← hu] at hweekday
    exact toWeekday?_eq_self hweekday
  | month n looped =>
    have hmonth := (moveTo?_month.1 h).1.2
    rw [← hu] at hmonth
    exact moveTo?_month.2 ⟨⟨rfl, hmonth⟩, rfl⟩
  | year y =>
    have hyear := (moveTo?_year.1 h).1
    rw [← hu] at hyear
    exact moveTo?_year.2 ⟨hyear, rfl⟩

/-- Into the month of a date, a move by months stays in the calendar. -/
theorem exists_addMonths?_of_monthIndex {d : Date}
    (h : (d.monthIndex : Int) = t.date.monthIndex + count) :
    ∃ a, t.addMonths? count = some a ∧ a.date.monthIndex = d.monthIndex := by
  have hmonths := d.monthIndex_bounds
  obtain ⟨date, hdate⟩ := Date.addMonths?_isSome (d := t.date) count (by omega) (by omega)
  have hmoved := (Date.addMonths?_eq_some_iff.1 hdate).1
  exact ⟨t.onDate date, by rw [DateTime.addMonths?, hdate]; rfl, by rw [DateTime.date_onDate]; omega⟩

/-- Into the year of a date, a move by years stays in the calendar. -/
theorem exists_addMonths?_of_year {d : Date} (h : (d.year : Int) = t.date.year + count) :
    ∃ a, t.addMonths? (12 * count) = some a ∧ a.date.year = d.year := by
  have hyears := d.year_bounds
  have hmonths := t.date.month_bounds
  have hindex : (t.date.monthIndex : Int) + 12 * count =
      12 * d.year + (t.date.month - 1 : Nat) := by
    unfold Date.monthIndex
    omega
  obtain ⟨date, hdate⟩ := Date.addMonths?_isSome (d := t.date) (12 * count) (by omega) (by omega)
  have ha : t.addMonths? (12 * count) = some (t.onDate date) := by
    rw [DateTime.addMonths?, hdate]
    rfl
  exact ⟨t.onDate date, ha, Int.ofNat.inj ((DateTime.year_of_addMonths? ha).trans h.symm)⟩

/-- A move by days that leads onto the point again needs no further move. -/
theorem addDays?_moveTo?_eq_some_iff (hstay : ∀ date : Date,
      (date.toDays : Int) = t.date.toDays + count →
        p.moveTo? (t.onDate date) false = some (t.onDate date)) :
    (t.addDays? count).bind (p.moveTo? · false) = some u ↔
      u = t.onDate u.date ∧ (u.date.toDays : Int) = t.date.toDays + count := by
  rw [Option.bind_eq_some_iff]
  constructor
  · rintro ⟨a, ha, hu⟩
    obtain ⟨hdays, haDate⟩ := DateTime.addDays?_eq_some_iff.1 ha
    rw [haDate, hstay a.date hdays] at hu
    obtain rfl := Option.some.inj hu
    exact ⟨rfl, hdays⟩
  · rintro ⟨huDate, hdays⟩
    refine ⟨u, DateTime.addDays?_eq_some_iff.2 ⟨hdays, huDate⟩, ?_⟩
    rw [huDate]
    exact hstay u.date hdays

section Months

variable (P : Date → Prop)

/-- A move by months leads into a month, and the point settles the day in it. -/
theorem addMonths?_moveTo?_eq_some_iff (hmove : ∀ date : Date,
      p.moveTo? (t.onDate date) false = some u ↔
        (u.date.monthIndex = date.monthIndex ∧ P u.date) ∧ u = t.onDate u.date) :
    (t.addMonths? count).bind (p.moveTo? · false) = some u ↔
      u = t.onDate u.date ∧ (u.date.monthIndex : Int) = t.date.monthIndex + count ∧ P u.date := by
  rw [Option.bind_eq_some_iff]
  constructor
  · rintro ⟨a, ha, hu⟩
    obtain ⟨⟨hindex, -⟩, haDate⟩ := DateTime.addMonths?_eq_some_iff.1 ha
    rw [haDate, hmove] at hu
    obtain ⟨⟨huIndex, hday⟩, huDate⟩ := hu
    exact ⟨huDate, huIndex ▸ hindex, hday⟩
  · rintro ⟨huDate, hindex, hday⟩
    obtain ⟨a, ha, haIndex⟩ := exists_addMonths?_of_monthIndex hindex
    refine ⟨a, ha, ?_⟩
    rw [(DateTime.addMonths?_eq_some_iff.1 ha).2, hmove]
    exact ⟨⟨haIndex.symm, hday⟩, huDate⟩

/-- A move by years leads into a year, and the point settles the date in it. -/
theorem addYears?_moveTo?_eq_some_iff (hmove : ∀ date : Date,
      p.moveTo? (t.onDate date) false = some u ↔
        (u.date.year = date.year ∧ P u.date) ∧ u = t.onDate u.date) :
    (t.addMonths? (12 * count)).bind (p.moveTo? · false) = some u ↔
      u = t.onDate u.date ∧ (u.date.year : Int) = t.date.year + count ∧ P u.date := by
  rw [Option.bind_eq_some_iff]
  constructor
  · rintro ⟨a, ha, hu⟩
    rw [(DateTime.addMonths?_eq_some_iff.1 ha).2, hmove] at hu
    obtain ⟨⟨hyear, hdate⟩, huDate⟩ := hu
    exact ⟨huDate, (congrArg Int.ofNat hyear).trans (DateTime.year_of_addMonths? ha), hdate⟩
  · rintro ⟨huDate, hyear, hdate⟩
    obtain ⟨a, ha, haYear⟩ := exists_addMonths?_of_year hyear
    refine ⟨a, ha, ?_⟩
    rw [(DateTime.addMonths?_eq_some_iff.1 ha).2, hmove]
    exact ⟨⟨haYear.symm, hdate⟩, huDate⟩

end Months

/-- From an instant that rests on a point, the units by which the point recurs lead as many of its
cycles further, once the instant is moved onto the point again. -/
theorem addSpan?_moveTo?_eq_some_iff (hcycle : p.cycle? = some unit) (hp : p.WeekdayExists)
    (ht : p.moveTo? t false = some t) :
    (t.addSpan? unit count).bind (p.moveTo? · false) = some u ↔
      u = t.onDate u.date ∧ p.IsCyclesAfter count t.date u.date := by
  cases p with
  | time clock inverted =>
    obtain rfl := Option.some.inj hcycle
    refine addDays?_moveTo?_eq_some_iff fun date _ => ?_
    have hclock : t.atTime clock = t := Option.some.inj ht
    rw [moveTo?, DateTime.atTime_onDate, hclock]
  | weekday n looped =>
    obtain rfl := Option.some.inj hcycle
    refine addDays?_moveTo?_eq_some_iff fun date hdays => toWeekday?_eq_self ?_
    have hweekday : (t.date.weekday : Int) = n := weekday_of_toWeekday? hp ht
    rw [DateTime.date_onDate]
    unfold Date.weekday at *
    omega
  | monthDay d looped =>
    obtain rfl := Option.some.inj hcycle
    exact addMonths?_moveTo?_eq_some_iff
      (fun e => (e.day : Int) = min d (daysInMonth e.year e.month)) fun _ => moveTo?_monthDay
  | date d n y looped =>
    cases y with
    | some y => cases hcycle
    | none =>
      obtain rfl := Option.some.inj hcycle
      refine addYears?_moveTo?_eq_some_iff
        (fun e => (e.month : Int) = n ∧ (e.day : Int) = min d (daysInMonth e.year e.month))
        fun date => moveTo?_date.trans ?_
      rw [Option.getD_none, DateTime.date_onDate, Int.ofNat_inj, DateTime.onDate_onDate]
  | month n looped =>
    obtain rfl := Option.some.inj hcycle
    exact addYears?_moveTo?_eq_some_iff (fun e => (e.month : Int) = n ∧ e.day = 1)
      fun _ => moveTo?_month
  | year y => cases hcycle

/-- At least one cycle further lies a later date. -/
theorem IsCyclesAfter.toDays_lt {d e : Date} (h : p.IsCyclesAfter count d e) (hcount : 1 ≤ count) :
    d.toDays < e.toDays := by
  cases p with
  | time clock inverted =>
    have hdays : (e.toDays : Int) = d.toDays + count := h
    omega
  | weekday n looped =>
    have hdays : (e.toDays : Int) = d.toDays + 7 * count := h
    omega
  | monthDay n looped =>
    have hindex := h.1
    exact Date.toDays_lt_of_monthIndex_lt (by omega)
  | date n m y looped =>
    cases y with
    | none =>
      have hyear := h.1
      exact Date.toDays_lt_of_year_lt (by omega)
    | some y => exact h.elim
  | month m looped =>
    have hyear := h.1
    exact Date.toDays_lt_of_year_lt (by omega)
  | year y => exact h.elim

end Point

namespace Plan

variable {plan : Plan} {unit : TimeUnit} {count : Int} {p : Point} {t u : DateTime}

/-- The plan of a repeating count of the unit by which a point recurs, beside that point. -/
structure IsAnchored (plan : Plan) (unit : TimeUnit) (count : Int) (p : Point) : Prop where
  steps : plan.steps = [⟨.span (.counts [(unit, count)] true), true⟩, ⟨.point p, false⟩]
  pinned : plan.pinned = .of [unit]
  /-- The default time of day does not stand in for a time of day that is named. -/
  unnamed : ∀ time, plan.defaultTime = some time → p.isTime = false
  cycle : p.cycle? = some unit
  weekday : p.WeekdayExists

/-- The instant is one that passes through the plan leave in place. -/
structure Rests (plan : Plan) (p : Point) (t : DateTime) : Prop where
  point : p.moveTo? t false = some t
  clock : plan.setDefaultTime t = t

theorem setDefaultTime_onDate (plan : Plan) (t : DateTime) (date : Date) :
    plan.setDefaultTime (t.onDate date) = (plan.setDefaultTime t).onDate date := by
  unfold setDefaultTime
  cases plan.defaultTime <;> rfl

namespace IsAnchored

/-- A pass through the point sets the default time of day and has nothing to bring back. -/
theorem settle?_point (h : plan.IsAnchored unit count p) :
    plan.settle? [⟨.point p, false⟩] t = (p.moveTo? t false).map plan.setDefaultTime := by
  have hpass : applySteps [⟨.point p, false⟩] t = p.moveTo? t false := bind_pure _
  rw [settle?, moveBy, hpass]
  cases hmoved : p.moveTo? t false with
  | none => rfl
  | some moved =>
    have hholds := Point.holdsAt_of_moveTo? h.weekday hmoved
    have hset : p.holdsAt (plan.setDefaultTime moved) = true := by
      cases htime : plan.defaultTime with
      | none => rwa [setDefaultTime, htime]
      | some time => rwa [Point.holdsAt_congr (h.unnamed time htime) date_setDefaultTime]
    refine realign?_eq_self ?_
    rw [holdsAt, h.steps]
    simpa [Content.holdsAt] using hset

theorem rests_of_settle? (h : plan.IsAnchored unit count p)
    (hsettle : plan.settle? [⟨.point p, false⟩] t = some u) : plan.Rests p u := by
  rw [h.settle?_point] at hsettle
  obtain ⟨moved, hmoved, rfl⟩ := Option.map_eq_some_iff.1 hsettle
  constructor
  · cases htime : p.isTime with
    | false => exact Point.moveTo?_eq_self h.weekday htime hmoved date_setDefaultTime
    | true =>
      have hnone : plan.defaultTime = none := by
        cases hdefault : plan.defaultTime with
        | none => rfl
        | some time => exact absurd (htime.symm.trans (h.unnamed time hdefault)) nofun
      cases p with
      | time clock inverted =>
        obtain rfl : t.atTime clock = moved := Option.some.inj hmoved
        rw [setDefaultTime, hnone]
        rfl
      | _ => cases htime
  · unfold setDefaultTime
    cases plan.defaultTime <;> rfl

theorem settle?_steps (h : plan.IsAnchored unit count p) (hunit : unit.isDayOrCoarser = true) :
    plan.settle? plan.steps t = plan.settle? [⟨.point p, false⟩] t := by
  rw [h.steps]
  exact settle?_cons_of_moveTo? (moveTo?_fencedSpan hunit)

theorem settle?_of_rests (h : plan.IsAnchored unit count p) (ht : plan.Rests p t) :
    plan.settle? [⟨.point p, false⟩] t = some t := by
  rw [h.settle?_point, ht.point, Option.map_some, ht.clock]

/-- An instant at rest is advanced by the span, which is the only step that may be advanced. -/
theorem advance_eq (h : plan.IsAnchored unit count p) (hcount : 1 ≤ count)
    (ht : plan.Rests p t) :
    plan.advance t = .ok ((t.addSpan? unit count).bind (p.moveTo? · false)) := by
  have hunable : plan.canAdvance ⟨.point p, false⟩ = .ok false := by
    simp [canAdvance, Content.cycle?, h.cycle, h.pinned, Scope.of]
  have hable : plan.canAdvance ⟨.span (.counts [(unit, count)] true), true⟩ = .ok true := rfl
  have hsteps : plan.steps.reverse =
      [⟨.point p, false⟩, ⟨.span (.counts [(unit, count)] true), true⟩] := by
    rw [h.steps]
    rfl
  rw [advance, hsteps, advanceOne_of_unable hunable]
  cases ha : t.addSpan? unit count with
  | none => exact advanceOne_of_outOfRange hable (by simp [Content.advance, Span.advance,
      Span.addCounts?, ha])
  | some a =>
    have hadvance : (Content.span (.counts [(unit, count)] true)).advance t = .ok a :=
      Span.advance_eq_ok_iff.2 ha
    rw [Option.bind_some]
    cases hmoved : p.moveTo? a false with
    | none =>
      refine advanceOne_of_settle?_eq_none hable hadvance ?_
      rw [stepsAfterAdvance, h.settle?_point, hmoved]
      rfl
    | some moved =>
      obtain ⟨honDate, hafter⟩ := (Point.addSpan?_moveTo?_eq_some_iff h.cycle h.weekday
        ht.point).1 (Option.bind_eq_some_iff.2 ⟨a, ha, hmoved⟩)
      have hset : plan.setDefaultTime moved = moved := by
        rw [honDate, setDefaultTime_onDate, ht.clock]
      have hholds : plan.holdsAt moved = true := by
        rw [holdsAt, h.steps]
        simpa [Content.holdsAt] using Point.holdsAt_of_moveTo? h.weekday hmoved
      refine advanceOne_of_accepts hable ⟨a, hadvance, ?_, ?_, hholds⟩
      · rw [stepsAfterAdvance, h.settle?_point, hmoved, Option.map_some, hset]
      · exact DateTime.lt_iff.2 (Or.inl (hafter.toDays_lt hcount))

end IsAnchored

end Plan

/-- What repeats by one span: a point, by counts of the unit by which it recurs, or counts alone. -/
inductive Repetition
  | anchored (unit : TimeUnit) (count : Int) (point : Point)
  | alone (counts : List (TimeUnit × Int))

namespace Repetition

variable {r : Repetition} {unit : TimeUnit} {count : Int} {p : Point}
  {cs : List (TimeUnit × Int)} {defaultTime : TimeOfDay}

/-- The content of an expression that asks for the repetition and for nothing else. -/
def content : Repetition → List Content
  | anchored unit count point => [.span (.counts [(unit, count)] true), .point point]
  | alone counts => [.span (.counts counts true)]

/-- The counts lead forward, and a point recurs by the unit that is counted. A weekday is one of the
seven. -/
def Valid : Repetition → Prop
  | anchored unit count point => point.cycle? = some unit ∧ point.WeekdayExists ∧ 1 ≤ count
  | alone counts => (∀ c ∈ counts, 0 ≤ c.2) ∧ ∃ c ∈ counts, 0 < c.2

/-- The numbers of an anchored repetition have no more digits than are written. -/
def Writable : Repetition → Prop
  | anchored _ count point => AllShort (count :: point.numbers)
  | alone _ => True

/-- The second instant is one span after the first one. On a point, the time of day is kept. -/
def LeadsTo (r : Repetition) (t u : DateTime) : Prop :=
  match r with
  | anchored _ count point => u = t.onDate u.date ∧ point.IsCyclesAfter count t.date u.date
  | alone counts => Span.addCounts? t counts = some u

/-- An expression that asks for the repetition and for nothing else. -/
def term (r : Repetition) : Term := ⟨r.content.map .content⟩

theorem content_term (r : Repetition) : r.term.content = r.content :=
  contents_map_content r.content

theorem content_ne_nil (r : Repetition) : r.content ≠ [] := by cases r <;> exact List.cons_ne_nil _ _

/-- The order in which the text names the span and the point does not matter. -/
theorem forTerm_eq {term : Term} (hcontent : term.content.Perm r.content) :
    Plan.forTerm term defaultTime = Plan.forTerm r.term defaultTime := by
  refine Plan.forTerm_eq_of_perm (hcontent.trans (.of_eq r.content_term.symm)) ?_ ?_
  · rw [Term.spans, content_term]
    cases r <;> exact Nat.le_refl 1
  · rw [Term.points, content_term]
    cases r with
    | anchored unit count p => exact List.nodup_singleton _
    | alone cs => exact List.nodup_nil

theorem isAnchored (hvalid : (anchored unit count p).Valid) :
    (Plan.forTerm (anchored unit count p).term defaultTime).IsAnchored unit count p where
  steps := by
    cases p with
    | time clock inverted => cases inverted <;> rfl
    | date d m y looped => cases y <;> rfl
    | _ => rfl
  pinned := rfl
  unnamed time htime := Plan.isTime_eq_false_of_defaultTime (Term.mem_ladder.2 (by
    rw [content_term]
    exact List.mem_cons_of_mem _ (List.mem_cons_self ..))) htime
  cycle := hvalid.1
  weekday := hvalid.2.1

theorem isDayOrCoarser_of_valid (hvalid : (anchored unit count p).Valid) :
    unit.isDayOrCoarser = true := by
  have hcycle := hvalid.1
  cases p with
  | date d m y looped =>
    cases y with
    | none => cases hcycle; rfl
    | some y => cases hcycle
  | year y => cases hcycle
  | _ => cases hcycle; rfl

/-- Counts alone are added in one pass, to whatever instant a search starts from. -/
theorem settle?_alone {t : DateTime} : (Plan.forTerm (alone cs).term defaultTime).settle?
    (Plan.forTerm (alone cs).term defaultTime).steps t = Span.addCounts? t cs := by
  have hsteps : (Plan.forTerm (alone cs).term defaultTime).steps =
      [⟨.span (.counts cs true), false⟩] := rfl
  have hpass : Plan.applySteps [⟨.span (.counts cs true), false⟩] t = Span.addCounts? t cs :=
    bind_pure _
  rw [hsteps, Plan.settle?, Plan.moveBy, hpass]
  cases Span.addCounts? t cs <;> rfl

end Repetition

namespace Term

variable {term : Term} {r : Repetition} {unit : TimeUnit} {count : Int} {p : Point}
  {defaultTime : TimeOfDay} {since first : DateTime}

/-- An expression has a description if its content and its limits have numbers that exist. -/
theorem exists_describe_of_content (hcontent : ∀ c ∈ term.content, ∃ text, c.describe = .ok text)
    (hlimits : ∀ part ∈ term.parts, part.isLimiter = true → part.InRange) :
    ∃ text, term.describe = .ok text := by
  have hparts : ∀ part ∈ term.parts, ∃ text, part.describe = .ok text := by
    intro part hpart
    cases part with
    | content c =>
      obtain ⟨text, htext⟩ := hcontent c (mem_contents.2 hpart)
      exact ⟨text, by rw [Part.describe, htext]⟩
    | limiter side limit => exact (hlimits _ hpart rfl).exists_describe
  obtain ⟨texts, htexts⟩ := exists_describeAll hparts
  exact ⟨_, by rw [describe, htexts]; rfl⟩

/-- A description writes the numbers of the content. A limit in range is described in any case. -/
theorem writes_describe (hcontent : ∀ c ∈ term.content, Writes c.numbers c.describe)
    (hlimits : ∀ part ∈ term.parts, part.isLimiter = true → part.InRange) :
    Writes (term.parts.flatMap Part.numbers) term.describe := by
  refine (writes_describeAll fun part hpart => ?_).map _
  cases part with
  | content c =>
    rw [Part.describe]
    exact hcontent c (mem_contents.2 hpart)
  | limiter side limit =>
    obtain ⟨text, htext⟩ := (hlimits _ hpart rfl).exists_describe
    exact htext ▸ writes_ok text

/-- An anchored repetition has a description if its count and the numbers of its point are short. -/
theorem describe_anchored (hcontent : term.content.Perm (Repetition.anchored unit count p).content)
    (hpoint : Writes p.numbers p.describe)
    (hlimits : ∀ part ∈ term.parts, part.isLimiter = true → part.InRange) :
    ((Repetition.anchored unit count p).Writable ∧ ∃ text, term.describe = .ok text) ∨
      (¬ (Repetition.anchored unit count p).Writable ∧
        ∃ digits, term.describe = .error (.numberTooLong digits)) := by
  have hmem {c : Content} : c ∈ term.content ↔
      c = .span (.counts [(unit, count)] true) ∨ c = .point p :=
    hcontent.mem_iff.trans List.mem_pair
  have hwrites : Writes (term.parts.flatMap Part.numbers) term.describe := by
    refine writes_describe (fun c hc => ?_) hlimits
    obtain rfl | rfl := hmem.1 hc
    · exact Span.writes_describe (.counts [(unit, count)] true)
    · exact hpoint
  have hnumbers (n : Int) : n ∈ term.parts.flatMap Part.numbers ↔ n ∈ count :: p.numbers := by
    rw [List.mem_flatMap, List.mem_cons]
    constructor
    · rintro ⟨part, hpart, hn⟩
      cases part with
      | content c =>
        obtain rfl | rfl := hmem.1 (mem_contents.2 hpart)
        · exact .inl (List.mem_singleton.1 hn)
        · exact .inr hn
      | limiter side limit => cases hn
    · rintro (rfl | hn)
      · exact ⟨_, mem_contents.1 (hmem.2 (.inl rfl)), List.mem_singleton_self n⟩
      · exact ⟨_, mem_contents.1 (hmem.2 (.inr rfl)), hn⟩
  have hshort : AllShort (term.parts.flatMap Part.numbers) ↔
      (Repetition.anchored unit count p).Writable :=
    forall_congr' fun n => imp_congr_left (hnumbers n)
  rwa [Writes, hshort] at hwrites

/-- Every occurrence on an anchored point is one that passes leave in place. -/
theorem rests_of_next (h : (Plan.forTerm term defaultTime).IsAnchored unit count p)
    (hunit : unit.isDayOrCoarser = true) (hcount : 1 ≤ count)
    (hfirst : term.next since true defaultTime (some .none) = .ok first) :
    (Plan.forTerm term defaultTime).Rests p first := by
  obtain ⟨-, limits, -, hsearch⟩ := next_eq_ok_iff.1 hfirst
  obtain ⟨candidate, hcandidate, hrun, -⟩ := searchBy_eq_ok_iff.1 hsearch
  rw [h.settle?_steps hunit] at hcandidate
  refine (of_advanceUntil (h.rests_of_settle? hcandidate) ?_ hrun).1
  rintro t u ht - hadvance
  rw [h.advance_eq hcount ht] at hadvance
  obtain ⟨a, ha, hu⟩ := Option.bind_eq_some_iff.1 (Except.ok.inj hadvance)
  have hmoved := (Point.addSpan?_moveTo?_eq_some_iff h.cycle h.weekday ht.point).1
    (Option.bind_eq_some_iff.2 ⟨a, ha, hu⟩)
  refine h.rests_of_settle? (t := a) ?_
  rw [h.settle?_point, hu, Option.map_some, hmoved.1, Plan.setDefaultTime_onDate, ht.clock]

/-- A search from an occurrence on an anchored point is one advance. -/
theorem next_of_rests (h : (Plan.forTerm term defaultTime).IsAnchored unit count p)
    (hunit : unit.isDayOrCoarser = true) (hcount : 1 ≤ count) (hcontent : term.content ≠ [])
    (ht : (Plan.forTerm term defaultTime).Rests p first) :
    term.next first true defaultTime (some .none) =
      term.outcome first ((first.addSpan? unit count).bind (p.moveTo? · false)) := by
  have hsettle := h.settle?_of_rests ht
  rw [← h.settle?_steps hunit] at hsettle
  have hearly : ¬ (⟨first, true⟩ : Threshold).admits first = true := fun hadmits =>
    Nat.lt_irrefl _ (DateTime.lt_def.1 (admits_strict.1 hadmits))
  have hadvance := h.advance_eq hcount ht
  rw [next_of_settle? hcontent hsettle]
  cases hmoved : (first.addSpan? unit count).bind (p.moveTo? · false) with
  | none =>
    rw [hmoved] at hadvance
    exact advanceUntil_of_endsAfter (.exhausted hearly hadvance) (by decide)
  | some second =>
    rw [hmoved] at hadvance
    have hlate := admits_strict.2 (Plan.lt_of_advance hadvance)
    exact advanceUntil_of_endsAfter (.advanced hearly hadvance (.admitted hlate)) (by decide)

/-- A search for counts alone adds them to the instant that it starts from. -/
theorem next_alone {cs : List (TimeUnit × Int)} (hvalid : (Repetition.alone cs).Valid)
    (hplan : Plan.forTerm term defaultTime = Plan.forTerm (Repetition.alone cs).term defaultTime)
    (hcontent : term.content ≠ []) (since : DateTime) :
    (∃ second, Span.addCounts? since cs = some second ∧
      term.next since true defaultTime (some .none) = .ok second) ∨
    Span.addCounts? since cs = none ∧
      ∃ fault, term.next since true defaultTime (some .none) =
        .error (.expression (.outsideCalendar fault)) := by
  have hsettle : (Plan.forTerm term defaultTime).settle?
      (Plan.forTerm term defaultTime).steps since = Span.addCounts? since cs := by
    rw [hplan, Repetition.settle?_alone]
  cases hmoved : Span.addCounts? since cs with
  | none => exact Or.inr ⟨rfl, _, next_of_settle?_eq_none hcontent (hsettle.trans hmoved)⟩
  | some second =>
    have hlater := Span.lt_of_addCounts? hvalid.1 hvalid.2 hmoved
    refine Or.inl ⟨second, rfl, ?_⟩
    rw [next_of_settle? hcontent (hsettle.trans hmoved),
      advanceUntil_of_admits _ (admits_strict.2 hlater)]

/-- The occurrence after another one lies one span behind it. There is none exactly where the span
leads out of the calendar, and to say so, the numbers of an anchored repetition are written. -/
theorem next_leadsTo (hcontent : term.content.Perm r.content) (hvalid : r.Valid)
    (hlimits : ∀ part ∈ term.parts, part.isLimiter = true → part.InRange)
    (hfirst : term.next since true defaultTime (some .none) = .ok first) :
    (∃ second, r.LeadsTo first second ∧
      term.next first true defaultTime (some .none) = .ok second) ∨
    (¬ ∃ second, r.LeadsTo first second) ∧
      (r.Writable → ∃ error,
        term.next first true defaultTime (some .none) = .error (.expression error) ∧
          error.kind = .noFutureOccurrence) ∧
      (¬ r.Writable → ∃ digits,
        term.next first true defaultTime (some .none) = .error (.numberTooLong digits)) := by
  have hplan : Plan.forTerm term defaultTime = Plan.forTerm r.term defaultTime :=
    r.forTerm_eq hcontent
  have hne : term.content ≠ [] := fun hnil => r.content_ne_nil (hnil ▸ hcontent).symm.eq_nil
  cases r with
  | anchored unit count p =>
    have h : (Plan.forTerm term defaultTime).IsAnchored unit count p :=
      hplan ▸ Repetition.isAnchored hvalid
    have hunit := Repetition.isDayOrCoarser_of_valid hvalid
    have hcount : 1 ≤ count := hvalid.2.2
    have hrests := rests_of_next h hunit hcount hfirst
    have hnext := next_of_rests h hunit hcount hne hrests
    have hleads {second : DateTime} : (first.addSpan? unit count).bind (p.moveTo? · false) =
        some second ↔ (Repetition.anchored unit count p).LeadsTo first second :=
      Point.addSpan?_moveTo?_eq_some_iff h.cycle h.weekday hrests.point
    cases hmoved : (first.addSpan? unit count).bind (p.moveTo? · false) with
    | some second =>
      rw [hmoved] at hnext
      exact Or.inl ⟨second, hleads.1 hmoved, hnext⟩
    | none =>
      rw [hmoved, outcome] at hnext
      refine Or.inr ⟨?_, ?_⟩
      · rintro ⟨second, hsecond⟩
        cases hmoved.symm.trans (hleads.2 hsecond)
      have hpoint := Point.writes_describe h.weekday hrests.point
      rcases describe_anchored hcontent hpoint hlimits with
        ⟨hwritable, text, htext⟩ | ⟨hnot, digits, htext⟩
      · rw [htext] at hnext
        exact ⟨fun _ => ⟨_, hnext, rfl⟩, absurd hwritable⟩
      · rw [htext] at hnext
        exact ⟨fun hwritable => absurd hwritable hnot, fun _ => ⟨_, hnext⟩⟩
  | alone cs =>
    rcases next_alone hvalid hplan hne first with ⟨second, hsecond, hnext⟩ | ⟨hnone, fault, hnext⟩
    · exact Or.inl ⟨second, hsecond, hnext⟩
    · refine Or.inr ⟨?_, fun _ => ⟨_, hnext, rfl⟩, fun hnot => absurd trivial hnot⟩
      rintro ⟨second, hsecond⟩
      cases hnone.symm.trans hsecond

/-- Every month on the thirty-first, a leap day is followed by the last day of March. -/
theorem next_leadsTo_leapDay :
    let first : DateTime := ⟨⟨2024, 2, 29, by decide⟩, 9, 0, 0, 0⟩
    let second : DateTime := ⟨⟨2024, 3, 31, by decide⟩, 9, 0, 0, 0⟩
    (Repetition.anchored .month 1 (.monthDay 31 false)).LeadsTo first second ∧
      (Repetition.anchored .month 1 (.monthDay 31 false)).term.next first true ⟨9, 0⟩
        (some .none) = .ok second := by
  intro first second
  have hfirst : (Repetition.anchored .month 1 (.monthDay 31 false)).term.next
      ⟨⟨2024, 2, 1, by decide⟩, 0, 0, 0, 0⟩ true ⟨9, 0⟩ (some .none) = .ok first := by
    decide +kernel
  have hsecond : (Repetition.anchored .month 1 (.monthDay 31 false)).term.next first true ⟨9, 0⟩
      (some .none) = .ok second := by decide +kernel
  have hlimits : ∀ part ∈ (Repetition.anchored .month 1 (.monthDay 31 false)).term.parts,
      part.isLimiter = true → part.InRange := by
    intro part hpart hlimiter
    cases (isLimiter_of_mem_map_content hpart).symm.trans hlimiter
  rcases next_leadsTo (r := .anchored .month 1 (.monthDay 31 false)) (.refl _)
      ⟨rfl, trivial, by decide⟩ hlimits hfirst with
    ⟨found, hleads, hfound⟩ | ⟨-, hfailed, -⟩
  · obtain rfl := Except.ok.inj (hfound.symm.trans hsecond)
    exact ⟨hleads, hsecond⟩
  · have hshort : ∀ n ∈ [(1 : Int), 31], n.natAbs < 10 ^ 4 := by decide
    obtain ⟨error, hfailed, -⟩ := hfailed fun n hn => lt_pow_maxDigits (hshort n hn)
    cases hfailed.symm.trans hsecond

/-- A question that no occurrence answers is not always told so: the description of a count of too
many digits fails. On a weekday with the number eight, which no day has, the occurrences are two
weeks apart. -/
theorem not_forall_next_after_next :
    (¬ ∀ (r : Repetition) (since first : DateTime) (failure : Failure), r.Valid →
      r.term.next since true .midnight (some .none) = .ok first →
      r.term.next first true .midnight (some .none) = .error failure →
      ∃ error, failure = .expression error ∧ error.kind = .noFutureOccurrence) ∧
    ¬ ∀ (n : Int) (since first second : DateTime),
      (Repetition.anchored .week 1 (.weekday n false)).term.next since true .midnight
        (some .none) = .ok first →
      (Repetition.anchored .week 1 (.weekday n false)).term.next first true .midnight
        (some .none) = .ok second →
      (Repetition.anchored .week 1 (.weekday n false)).LeadsTo first second := by
  constructor
  · intro h
    let daily : Repetition := .anchored .day (10 ^ Text.maxDigits : Nat) (.time ⟨9, 0⟩ false)
    have hvalid : daily.Valid := ⟨rfl, trivial, by decide +kernel⟩
    obtain ⟨error, herror, -⟩ := h daily ⟨⟨2024, 1, 1, by decide⟩, 0, 0, 0, 0⟩
      ⟨⟨2024, 1, 1, by decide⟩, 9, 0, 0, 0⟩ (.numberTooLong 4301) hvalid (by decide +kernel)
      (by decide +kernel)
    cases herror
  · intro h
    have hleads := h 8 ⟨⟨2024, 1, 1, by decide⟩, 9, 0, 0, 0⟩ ⟨⟨2024, 1, 15, by decide⟩, 0, 0, 0, 0⟩
      ⟨⟨2024, 1, 29, by decide⟩, 0, 0, 0, 0⟩ (by decide +kernel) (by decide +kernel)
    exact absurd hleads.2 (by unfold Point.IsCyclesAfter; decide +kernel)

end Term

end TimePhrase
