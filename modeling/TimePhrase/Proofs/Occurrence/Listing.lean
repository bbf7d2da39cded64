import Mathlib.Data.List.Chain
import TimePhrase.Proofs.Occurrence.Monotone
import TimePhrase.Proofs.Refusal

/-!
# Lists of occurrences

A repetition is asked for its next occurrence, then for the one behind that, until there are as many
as were wanted. The upper bound ends the list. A question that fails for any other reason ends it
too, but in a failure, and the occurrences before it are lost. This is what happens to a repetition
without an upper bound at the end of the calendar.
-/

namespace TimePhrase

/-- The failure says that an occurrence has been found behind the upper bound. -/
def Failure.isPastBound : Failure → Bool
  | .expression (.pastBound ..) => true
  | _ => false

/-- The instant lies between the bounds, be it on the lower one. -/
def Bounds.Holds (bounds : Bounds) (t : DateTime) : Prop :=
  (∀ lower ∈ bounds.lower, lower ≤ t) ∧ ∀ upper ∈ bounds.upper, t < upper

namespace Repeated

variable {s : Repeated} {since time : DateTime} {times : List DateTime} {count : Nat}
  {failure : Failure}

/-- Each of the instants is the next occurrence after the one before it, the first of them after
`since`. -/
def InARow (s : Repeated) (since : DateTime) (times : List DateTime) : Prop :=
  (since :: times).IsChain fun t u => s.next t = .ok u

/-- Occurrences in a row, as many as are wanted or up to the bound behind which the next one
lies. -/
structure Lists (s : Repeated) (since : DateTime) (count : Nat) (times : List DateTime) : Prop where
  inARow : s.InARow since times
  length_le : times.length ≤ count
  ended : times.length < count →
    ∃ failure, s.next (times.getLastD since) = .error failure ∧ failure.isPastBound = true

section Steps

theorem inARow_cons_iff :
    s.InARow since (time :: times) ↔ s.next since = .ok time ∧ s.InARow time times :=
  List.isChain_cons_cons

theorem lists_zero_iff : s.Lists since 0 times ↔ times = [] := by
  constructor
  · intro h
    exact List.eq_nil_of_length_eq_zero (Nat.le_zero.1 h.length_le)
  · rintro rfl
    exact ⟨List.isChain_singleton since, Nat.le_refl 0, nofun⟩

theorem lists_cons_iff : s.Lists since (count + 1) (time :: times) ↔
    s.next since = .ok time ∧ s.Lists time count times := by
  constructor
  · rintro ⟨hrow, hlength, hended⟩
    obtain ⟨hnext, hrow⟩ := inARow_cons_iff.1 hrow
    rw [List.getLastD_cons] at hended
    exact ⟨hnext, hrow, Nat.le_of_succ_le_succ hlength, fun h => hended (Nat.succ_lt_succ h)⟩
  · rintro ⟨hnext, hrow, hlength, hended⟩
    refine ⟨inARow_cons_iff.2 ⟨hnext, hrow⟩, Nat.succ_le_succ hlength, fun h => ?_⟩
    rw [List.getLastD_cons]
    exact hended (Nat.lt_of_succ_lt_succ h)

theorem lists_nil_iff : s.Lists since (count + 1) [] ↔
    ∃ failure, s.next since = .error failure ∧ failure.isPastBound = true := by
  constructor
  · intro h
    exact h.ended (Nat.succ_pos count)
  · intro h
    exact ⟨List.isChain_singleton since, Nat.zero_le _, fun _ => h⟩

theorem occurrences_of_next (h : s.next since = .ok time) : s.occurrences since (count + 1) =
    (s.occurrences time count >>= fun rest => .ok (time :: rest)) := by
  rw [occurrences, h]
  rfl

theorem occurrences_of_error (h : s.next since = .error failure) :
    s.occurrences since (count + 1) = if failure.isPastBound then .ok [] else .error failure := by
  rw [occurrences, h]
  cases failure with
  | expression error => cases error <;> rfl
  | _ => rfl

end Steps

/-- The list that is returned is what there is to find. -/
theorem occurrences_eq_ok_iff :
    s.occurrences since count = .ok times ↔ s.Lists since count times := by
  induction count generalizing since times with
  | zero =>
    rw [lists_zero_iff, occurrences, pure_eq_ok, Except.ok.injEq]
    exact eq_comm
  | succ count ih =>
    cases hnext : s.next since with
    | ok time =>
      rw [occurrences_of_next hnext, bind_eq_ok_iff]
      cases times with
      | nil => simp [lists_nil_iff, hnext]
      | cons first rest =>
        simp only [lists_cons_iff, ← ih, hnext, Except.ok.injEq, List.cons.injEq]
        constructor
        · rintro ⟨_, hrest, rfl, rfl⟩
          exact ⟨rfl, hrest⟩
        · rintro ⟨rfl, hrest⟩
          exact ⟨rest, hrest, rfl, rfl⟩
    | error failure =>
      rw [occurrences_of_error hnext]
      cases times with
      | nil => simp [lists_nil_iff, hnext]
      | cons first rest =>
        simp only [lists_cons_iff, hnext, reduceCtorEq, false_and, iff_false]
        split <;> simp

/-- The failure that is raised comes from a question that has no answer within the calendar. All
occurrences found before it are lost. -/
theorem occurrences_eq_error_iff : s.occurrences since count = .error failure ↔
    ∃ times, s.InARow since times ∧ times.length < count ∧
      s.next (times.getLastD since) = .error failure ∧ failure.isPastBound = false := by
  induction count generalizing since with
  | zero => simp [occurrences]
  | succ count ih =>
    constructor
    · intro h
      cases hnext : s.next since with
      | ok time =>
        have hrest : s.occurrences time count = .error failure := by
          simpa [occurrences_of_next hnext, bind_eq_error_iff] using h
        obtain ⟨times, hrow, hlength, hlast, hpast⟩ := ih.1 hrest
        refine ⟨time :: times, inARow_cons_iff.2 ⟨hnext, hrow⟩, Nat.succ_lt_succ hlength, ?_, hpast⟩
        rwa [List.getLastD_cons]
      | error other =>
        rw [occurrences_of_error hnext] at h
        split at h
        · cases h
        · rename_i hpast
          obtain rfl := Except.error.inj h
          exact ⟨[], List.isChain_singleton since, Nat.succ_pos count, hnext,
            Bool.not_eq_true _ ▸ hpast⟩
    · rintro ⟨times, hrow, hlength, hlast, hpast⟩
      cases times with
      | nil =>
        have hnext : s.next since = .error failure := hlast
        rw [occurrences_of_error hnext, hpast]
        rfl
      | cons time rest =>
        obtain ⟨hnext, hrow⟩ := inARow_cons_iff.1 hrow
        rw [List.getLastD_cons] at hlast
        rw [occurrences_of_next hnext,
          ih.2 ⟨rest, hrow, Nat.lt_of_succ_lt_succ hlength, hlast, hpast⟩]
        rfl

section Lists

/-- A next occurrence lies behind the question and between the bounds. -/
theorem lt_and_holds_of_next (h : s.next since = .ok time) :
    since < time ∧ s.bounds.Holds time := by
  obtain ⟨-, limits, hlimits, hsearch⟩ := Term.next_eq_ok_iff.1 h
  obtain rfl := Except.ok.inj hlimits
  obtain ⟨first, -, hadvance, hupper⟩ := Term.searchBy_eq_ok_iff.1 hsearch
  obtain ⟨-, hadmits⟩ := Term.of_advanceUntil (P := fun _ => True) trivial
    (fun _ _ _ _ _ => trivial) hadvance
  obtain ⟨-, hlater, hlower⟩ := Threshold.admits_of_iff.1 hadmits
  exact ⟨hlater rfl, hlower, hupper⟩

/-- Occurrences in a row are in order. -/
theorem InARow.pairwise (h : s.InARow since times) : (since :: times).Pairwise (· < ·) := by
  have htrans : Trans (α := DateTime) (· < ·) (· < ·) (· < ·) := ⟨Nat.lt_trans⟩
  have hchain : (since :: times).IsChain (· < ·) :=
    h.imp fun _ _ hnext => (lt_and_holds_of_next hnext).1
  exact hchain.pairwise

theorem InARow.holds (h : s.InARow since times) : ∀ t ∈ times, s.bounds.Holds t := by
  induction times generalizing since with
  | nil => exact nofun
  | cons time rest ih =>
    obtain ⟨hnext, hrest⟩ := inARow_cons_iff.1 h
    rw [List.forall_mem_cons]
    exact ⟨(lt_and_holds_of_next hnext).2, ih hrest⟩

/-- With fewer wanted, the list breaks off earlier. -/
theorem Lists.take {fewer : Nat} (h : s.Lists since count times) (hle : fewer ≤ count) :
    s.Lists since fewer (times.take fewer) := by
  refine ⟨List.IsChain.take h.inARow (fewer + 1), List.length_take_le .., fun hshort => ?_⟩
  have hlength : times.length < fewer := by
    rw [List.length_take] at hshort
    omega
  rw [List.take_of_length_le (Nat.le_of_lt hlength)]
  exact h.ended (Nat.lt_of_lt_of_le hlength hle)

/-- A question to a repetition in range that fails finds no occurrence, or one behind the bound. -/
theorem kind_of_next (hrange : ∀ part ∈ s.term.parts, part.InRange) (hcontent : s.term.content ≠ [])
    (h : s.next since = .error failure) (hpast : failure.isPastBound = false) :
    ∃ error, failure = .expression error ∧ error.kind = .noFutureOccurrence := by
  rw [next, Term.next_eq_bind hcontent] at h
  obtain ⟨error, rfl, hkind | ⟨found, upper, rfl⟩⟩ :=
    kind_of_searchBy hrange (inRange_of_mem_steps hrange) h
  · exact ⟨error, rfl, hkind⟩
  · cases hpast

end Lists

/-- A list is returned exactly if it is what there is to find. It is in order and between the
bounds, and breaks off earlier if fewer are wanted. What is raised is the failure of a question
behind the occurrences found so far, other than that the next one is behind the upper bound: that
there is no future occurrence. -/
theorem occurrences_spec (s : Repeated) (since : DateTime) (count : Nat) :
    (∀ times, s.occurrences since count = .ok times ↔ s.Lists since count times) ∧
      (∀ times, s.occurrences since count = .ok times →
        (since :: times).Pairwise (· < ·) ∧ (∀ t ∈ times, s.bounds.Holds t) ∧
          ∀ fewer ≤ count, s.occurrences since fewer = .ok (times.take fewer)) ∧
      (∀ failure, s.occurrences since count = .error failure ↔
        ∃ found, s.InARow since found ∧ found.length < count ∧
          s.next (found.getLastD since) = .error failure ∧ failure.isPastBound = false) ∧
      ((∀ part ∈ s.term.parts, part.InRange) → s.term.content ≠ [] →
        ∀ failure, s.occurrences since count = .error failure →
          ∃ error, failure = .expression error ∧ error.kind = .noFutureOccurrence) := by
  refine ⟨fun times => occurrences_eq_ok_iff, fun times htimes => ?_,
    fun failure => occurrences_eq_error_iff, fun hrange hcontent failure hfailed => ?_⟩
  · have hlists := occurrences_eq_ok_iff.1 htimes
    exact ⟨hlists.inARow.pairwise, hlists.inARow.holds,
      fun fewer hfewer => occurrences_eq_ok_iff.2 (hlists.take hfewer)⟩
  · obtain ⟨found, -, -, hlast, hpast⟩ := occurrences_eq_error_iff.1 hfailed
    exact kind_of_next hrange hcontent hlast hpast

/-- Every 5000 years from the question on. -/
def everyFiveThousandYears : Term := ⟨[.content (.span (.counts [(.year, 5000)] true))]⟩

theorem inRange_everyFiveThousandYears : ∀ part ∈ everyFiveThousandYears.parts, part.InRange :=
  List.forall_mem_singleton.2 (.content (Span.inRange_counts_singleton (by decide) .year true))

/-- From the first day of 2024 on, one occurrence is a list that breaks off to nothing, and two are
refused. -/
theorem occurrences_spec_fiveThousandYears :
    let s : Repeated := ⟨everyFiveThousandYears, .midnight, .none⟩
    let since : DateTime := ⟨⟨2024, 1, 1, by decide⟩, 0, 0, 0, 0⟩
    let time : DateTime := ⟨⟨7024, 1, 1, by decide⟩, 0, 0, 0, 0⟩
    s.occurrences since 1 = .ok [time] ∧ s.Lists since 1 [time] ∧
      [since, time].Pairwise (· < ·) ∧ s.bounds.Holds time ∧ s.occurrences since 0 = .ok [] ∧
      ∃ error, s.occurrences since 2 = .error (.expression error) ∧
        error.kind = .noFutureOccurrence ∧ s.next time = .error (.expression error) := by
  intro s since time
  have hone : s.occurrences since 1 = .ok [time] := by decide +kernel
  obtain ⟨failure, hfailure⟩ : ∃ failure, s.occurrences since 2 = .error failure := by
    cases htwo : s.occurrences since 2 with
    | error failure => exact ⟨failure, rfl⟩
    | ok times =>
      have hlost : (s.occurrences since 2).toOption = none := by decide +kernel
      rw [htwo] at hlost
      cases hlost
  obtain ⟨hlists, hordered, -, -⟩ := occurrences_spec s since 1
  obtain ⟨-, -, hfailed, hkind⟩ := occurrences_spec s since 2
  obtain ⟨horder, hholds, hfewer⟩ := hordered _ hone
  obtain ⟨error, rfl, hkind⟩ :=
    hkind inRange_everyFiveThousandYears (List.cons_ne_nil _ _) failure hfailure
  refine ⟨hone, (hlists _).1 hone, horder, hholds time (List.mem_singleton_self time),
    hfewer 0 (Nat.zero_le 1), error, hfailure, hkind, ?_⟩
  -- The failing question is the one behind the first occurrence, for there is a first one.
  have hnext : s.next since = .ok time := (inARow_cons_iff.1 ((hlists _).1 hone).inARow).1
  obtain ⟨found, hrow, hlength, hlast, -⟩ := (hfailed _).1 hfailure
  cases found with
  | nil => cases hnext.symm.trans hlast
  | cons first rest =>
    obtain rfl : rest = [] :=
      List.eq_nil_of_length_eq_zero (Nat.lt_one_iff.1 (Nat.lt_of_succ_lt_succ hlength))
    obtain rfl := Except.ok.inj (hnext.symm.trans (inARow_cons_iff.1 hrow).1)
    exact hlast

/-- What has been found may be lost: the first day of 2024 is followed by that of 7024, but of two
occurrences wanted the second is not in the calendar, and none is returned. -/
theorem not_forall_exists_occurrences : ¬ ∀ (parts : List Part) (term : Term)
    (reference made since time : DateTime) (clock defaultTime : TimeOfDay) (schedule : Repeated)
    (count : Nat), Term.ofParts parts reference clock = .ok term → term.isLooped = true →
    (∀ part ∈ parts, part.InRange) → ofTerm term made defaultTime = .ok schedule →
    schedule.next since = .ok time → ∃ times, schedule.occurrences since count = .ok times := by
  intro h
  have hunlimited : ∀ side, everyFiveThousandYears.limiter? side = none := fun _ => rfl
  obtain ⟨times, htimes⟩ := h everyFiveThousandYears.parts everyFiveThousandYears
    ⟨⟨2024, 1, 1, by decide⟩, 0, 0, 0, 0⟩ ⟨⟨2024, 1, 1, by decide⟩, 0, 0, 0, 0⟩
    ⟨⟨2024, 1, 1, by decide⟩, 0, 0, 0, 0⟩ ⟨⟨7024, 1, 1, by decide⟩, 0, 0, 0, 0⟩
    .midnight .midnight ⟨everyFiveThousandYears, .midnight, .none⟩ 2
    (Term.ofParts_of_unlimited rfl (List.cons_ne_nil _ _) hunlimited) rfl
    inRange_everyFiveThousandYears
    (ofTerm_of_unlimited hunlimited) (by decide +kernel)
  have hlost : ((⟨everyFiveThousandYears, .midnight, .none⟩ : Repeated).occurrences
      ⟨⟨2024, 1, 1, by decide⟩, 0, 0, 0, 0⟩ 2).toOption = none := by decide +kernel
  rw [htimes] at hlost
  cases hlost

end Repeated

end TimePhrase
