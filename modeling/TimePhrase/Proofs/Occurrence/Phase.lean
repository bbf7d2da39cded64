import Mathlib.Data.Int.ModEq
import TimePhrase.Proofs.Occurrence.Shift

/-!
# Moves by whole periods

A count of minutes, hours or longer units changes the time of day by whole periods, and a point
other than a time of day leaves it as it is. So does a pass through such parts where the plan has
no default time of day.
-/

namespace TimePhrase

/-- The move changes the time of day by a whole number of periods. -/
def KeepsPhase (period : Nat) (move : DateTime → Option DateTime) : Prop :=
  ∀ ⦃t m⦄, move t = some m → m.microsOfDay ≡ t.microsOfDay [MOD period]

/-- The span counts units that are made up of whole periods. -/
def Span.CountsWhole (period : Nat) : Span → Prop
  | .counts cs _ => ∀ c ∈ cs, period ∣ c.1.micros
  | .days _ => True

namespace KeepsPhase

variable {period : Nat} {move next : DateTime → Option DateTime} {t m : DateTime}

theorem some : KeepsPhase period .some := by
  intro t m h
  rw [Option.some.inj h]

theorem bind (hmove : KeepsPhase period move) (hnext : KeepsPhase period next) :
    KeepsPhase period fun t => (move t).bind next := by
  intro t m h
  obtain ⟨moved, hmoved, h⟩ := Option.bind_eq_some_iff.1 h
  exact (hnext h).trans (hmove hmoved)

theorem of_onDate (h : ∀ t m, move t = .some m → m = t.onDate m.date) :
    KeepsPhase period move := by
  intro t m hm
  rw [h t m hm]
  rfl

theorem addDays? (count : Int) : KeepsPhase period (·.addDays? count) :=
  .of_onDate fun _ _ h => (DateTime.addDays?_eq_some_iff.1 h).2

theorem addMonths? (count : Int) : KeepsPhase period (·.addMonths? count) :=
  .of_onDate fun _ _ h => (DateTime.addMonths?_eq_some_iff.1 h).2

theorem addMicros? {micros : Int} (hday : period ∣ DateTime.microsPerDay)
    (hmicros : (period : Int) ∣ micros) : KeepsPhase period (·.addMicros? micros) := by
  intro t m h
  have hmoved := DateTime.addMicros?_eq_some_iff.1 h
  unfold DateTime.toMicros at hmoved
  push_cast at hmoved
  have hdays : (period : Int) ∣ (m.date.toDays - t.date.toDays) * DateTime.microsPerDay :=
    Dvd.dvd.mul_left (Int.natCast_dvd_natCast.2 hday) _
  rw [← Int.natCast_modEq_iff, Int.modEq_iff_dvd]
  have hchange : (t.microsOfDay : Int) - m.microsOfDay =
      (m.date.toDays - t.date.toDays) * DateTime.microsPerDay - micros := by
    rw [Int.sub_mul]
    omega
  rw [hchange]
  exact Int.dvd_sub hdays hmicros

theorem addSpan? {unit : TimeUnit} (hday : period ∣ DateTime.microsPerDay)
    (hunit : period ∣ unit.micros) (count : Int) : KeepsPhase period (·.addSpan? unit count) := by
  have hmicros : (period : Int) ∣ unit.micros * count :=
    Dvd.dvd.mul_right (Int.natCast_dvd_natCast.2 hunit) count
  cases unit with
  | year => exact addMonths? _
  | month => exact addMonths? _
  | week => exact addDays? _
  | day => exact addDays? _
  | hour => exact addMicros? hday hmicros
  | minute => exact addMicros? hday hmicros

end KeepsPhase

section Moves

variable {period : Nat} {s : Span} {cs : List (TimeUnit × Int)} {p : Point} {t m : DateTime}

theorem Span.keepsPhase_addCounts? (hday : period ∣ DateTime.microsPerDay)
    (hcs : ∀ c ∈ cs, period ∣ c.1.micros) : KeepsPhase period (addCounts? · cs) := by
  induction cs with
  | nil => exact .some
  | cons c rest ih =>
    obtain ⟨hc, hrest⟩ := List.forall_mem_cons.1 hcs
    exact (KeepsPhase.addSpan? hday hc c.2).bind (ih hrest)

theorem Span.keepsPhase_moveTo? (hday : period ∣ DateTime.microsPerDay)
    (h : s.CountsWhole period) (fenced : Bool) : KeepsPhase period (s.moveTo? · fenced) := by
  cases s with
  | days count => exact .addDays? count
  | counts cs looped =>
    cases fenced with
    | false => exact keepsPhase_addCounts? hday h
    | true => exact keepsPhase_addCounts? hday fun c hc => h c (List.mem_filter.1 hc).1

theorem Span.CountsWhole.modEq_of_advance (hday : period ∣ DateTime.microsPerDay)
    (h : s.CountsWhole period) (hm : s.advance t = .ok m) :
    m.microsOfDay ≡ t.microsOfDay [MOD period] := by
  cases s with
  | days count => cases hm
  | counts cs looped =>
    cases looped with
    | false => cases hm
    | true =>
      simp only [advance] at hm
      split at hm
      · rename_i moved hmoved
        obtain rfl := Except.ok.inj hm
        exact keepsPhase_addCounts? hday h hmoved
      · cases hm

theorem Point.keepsPhase_moveTo? (hp : p.isTime = false) (fenced : Bool) :
    KeepsPhase period (p.moveTo? · fenced) :=
  .of_onDate fun _ _ h => Point.onDate_of_moveTo? hp h

theorem Point.keepsPhase_inNextCycle? (p : Point) : KeepsPhase period p.inNextCycle? := by
  cases p with
  | time => exact .addDays? 1
  | weekday => exact .addDays? 7
  | date => exact (KeepsPhase.addMonths? 12).bind (keepsPhase_moveTo? rfl false)
  | month => exact (KeepsPhase.addMonths? 12).bind (keepsPhase_moveTo? rfl false)
  | monthDay => exact (KeepsPhase.addMonths? 1).bind (keepsPhase_moveTo? rfl false)
  | year => nofun

end Moves

namespace Plan

variable {plan : Plan} {steps : List Step} {period : Nat}

theorem keepsPhase_applySteps (h : ∀ step ∈ steps, KeepsPhase period step.moveTo?) :
    KeepsPhase period (applySteps steps) := by
  induction steps with
  | nil => exact .some
  | cons step rest ih =>
    obtain ⟨hstep, hrest⟩ := List.forall_mem_cons.1 h
    exact hstep.bind (ih hrest)

/-- Without a default time of day, only the steps of a pass change the time of day. -/
theorem keepsPhase_settle? (hnone : plan.defaultTime = none)
    (h : ∀ step ∈ steps, KeepsPhase period step.moveTo?) :
    KeepsPhase period (plan.settle? steps) := by
  intro t m hm
  obtain ⟨moved, hmoved, hrealign⟩ := settle?_eq_some_iff.1 hm
  have hset : plan.setDefaultTime moved = moved := by rw [setDefaultTime, hnone]
  rw [hset] at hrealign
  rw [onDate_of_realign? hrealign, DateTime.microsOfDay_onDate]
  exact keepsPhase_applySteps h hmoved

end Plan

end TimePhrase
