import Mathlib.Algebra.Order.BigOperators.Group.List
import Mathlib.Algebra.Order.Ring.Int
import TimePhrase.Proofs.Occurrence.Points
import TimePhrase.Proofs.Occurrence.Skip

/-!
# Terms that move by a fixed length

A term without points whose spans are counted in units of fixed length moves every instant by the
same number of microseconds. If that leads forward, the first candidate is the occurrence. If it
does not, a keyword has led back, and then there is one repeating span behind it by which every
candidate is advanced. Either way, two searches keep the distance that they start with.
-/

namespace TimePhrase

open Plan

namespace TimeUnit

/-- The unit is a week or shorter, so that it has a fixed length. -/
def IsFixed (u : TimeUnit) : Prop := week.rank ≤ u.rank

/-- The microseconds of a unit of fixed length. -/
def micros : TimeUnit → Nat
  | year | month => 0
  | week => 7 * DateTime.microsPerDay
  | day => DateTime.microsPerDay
  | hour => DateTime.microsPerHour
  | minute => DateTime.microsPerMinute

theorem addSpan?_eq_addMicros? {u : TimeUnit} (h : u.IsFixed) (t : DateTime) (count : Int) :
    t.addSpan? u count = t.addMicros? (u.micros * count) := by
  cases u with
  | year => simp [IsFixed, rank] at h
  | month => simp [IsFixed, rank] at h
  | week =>
    have hday : DateTime.microsPerDay = 86400000000 := rfl
    rw [DateTime.addSpan?, DateTime.addDays?_eq_addMicros?, micros, hday]
    congr 1
    omega
  | day => exact DateTime.addDays?_eq_addMicros? t count
  | hour => rfl
  | minute => rfl

end TimeUnit

namespace Span

/-- The units of the span have a fixed length. -/
def IsFixed : Span → Prop
  | counts cs _ => ∀ c ∈ cs, c.1.IsFixed
  | days _ => True

/-- The microseconds of the moves that a span of fixed length makes. -/
def moves : Span → List Int
  | counts cs _ => cs.map fun c => c.1.micros * c.2
  | days count => [DateTime.microsPerDay * count]

variable {s : Span} {t : DateTime}

theorem addCounts?_eq_foldlM {cs : List (TimeUnit × Int)} (h : ∀ c ∈ cs, c.1.IsFixed) :
    addCounts? t cs = (cs.map fun c => (c.1.micros * c.2 : Int)).foldlM DateTime.addMicros? t := by
  induction cs generalizing t with
  | nil => rfl
  | cons c rest ih =>
    obtain ⟨hc, hrest⟩ := List.forall_mem_cons.1 h
    rw [addCounts?, TimeUnit.addSpan?_eq_addMicros? hc, List.map_cons, List.foldlM_cons]
    exact bind_congr fun moved => ih hrest

theorem moveTo?_eq_foldlM (h : s.IsFixed) :
    s.moveTo? t false = s.moves.foldlM DateTime.addMicros? t := by
  cases s with
  | counts cs looped => exact addCounts?_eq_foldlM h
  | days count =>
    rw [moveTo?, DateTime.addDays?_eq_addMicros?, moves, List.foldlM_cons]
    exact (bind_pure _).symm

theorem advance_eq_ok_iff_foldlM {u : DateTime} (h : s.IsFixed) (hlooped : s.isLooped = true) :
    s.advance t = .ok u ↔ s.moves.foldlM DateTime.addMicros? t = some u := by
  cases s with
  | days count => cases hlooped
  | counts cs looped =>
    obtain rfl : looped = true := hlooped
    rw [moves, ← addCounts?_eq_foldlM h, advance]
    cases addCounts? t cs <;> simp

/-- Only a day relative to today leads back. -/
theorem nonneg_of_mem_moves {n : Int} (hcounts : s.HasPositiveCounts) (hdays : ∀ k, s ≠ .days k)
    (hn : n ∈ s.moves) : 0 ≤ n := by
  cases s with
  | days k => exact absurd rfl (hdays k)
  | counts cs looped =>
    obtain ⟨c, hc, rfl⟩ := List.mem_map.1 hn
    exact Int.mul_nonneg (Int.natCast_nonneg _) (Int.le_of_lt (hcounts c hc))

end Span

namespace DateTime

variable {t u : DateTime} {moves : List Int}

theorem toMicros_of_foldlM_addMicros? (h : moves.foldlM addMicros? t = some u) :
    (u.toMicros : Int) = t.toMicros + moves.sum := by
  induction moves generalizing t with
  | nil =>
    obtain rfl : t = u := Option.some.inj h
    exact (Int.add_zero _).symm
  | cons n rest ih =>
    obtain ⟨moved, hmoved, hrest⟩ := Option.bind_eq_some_iff.1 h
    rw [ih hrest, addMicros?_eq_some_iff.1 hmoved, List.sum_cons, Int.add_assoc]

/-- Moves forward lead to the instant at the distance of all of them, if there is one. -/
theorem foldlM_addMicros?_of_nonneg (hmoves : ∀ n ∈ moves, 0 ≤ n)
    (h : (u.toMicros : Int) = t.toMicros + moves.sum) : moves.foldlM addMicros? t = some u := by
  induction moves generalizing t with
  | nil =>
    rw [List.sum_nil, Int.add_zero] at h
    exact congrArg some (eq_of_toMicros_eq (Int.ofNat.inj h.symm))
  | cons n rest ih =>
    obtain ⟨hn, hrest⟩ := List.forall_mem_cons.1 hmoves
    have hsum := List.sum_nonneg hrest
    rw [List.sum_cons] at h
    obtain ⟨moved, hmoved⟩ : ∃ moved : DateTime, (moved.toMicros : Int) = t.toMicros + n :=
      exists_toMicros_eq (u := u) (by omega) (by omega)
    rw [List.foldlM_cons, addMicros?_eq_some_iff.2 hmoved]
    exact ih hrest (by omega)

end DateTime

namespace Plan

variable {plan : Plan}

/-- All candidates are advanced by the same distance. -/
def KeepsDistance (plan : Plan) : Prop :=
  ∀ ⦃c c' m m'⦄, plan.advance c = .ok (some m) → plan.advance c' = .ok (some m') →
    (m.toMicros : Int) - c.toMicros = m'.toMicros - c'.toMicros

end Plan

namespace Threshold

variable {threshold threshold' : Threshold} {c c' : DateTime}

/-- At the same distance from a later start, a candidate is late enough only if the other one is. -/
theorem admits_of_distance (hstrict : threshold.strict = true → threshold'.strict = true)
    (hdistance : (c.toMicros : Int) - threshold.start.toMicros =
      c'.toMicros - threshold'.start.toMicros)
    (h : threshold'.admits c' = true) : threshold.admits c = true := by
  rw [admits_iff] at h ⊢
  by_cases htrue : threshold.strict = true
  · rw [if_pos (hstrict htrue), DateTime.lt_def] at h
    rw [if_pos htrue, DateTime.lt_def]
    omega
  · have hle : threshold'.start ≤ c' := by
      split at h
      · exact DateTime.le_of_lt h
      · exact h
    rw [if_neg htrue, DateTime.le_def]
    rw [DateTime.le_def] at hle
    omega

end Threshold

namespace Term

section Distance

variable {term : Term} {plan : Plan} {threshold threshold' : Threshold} {rounds : Nat}
  {since since' c c' result result' : DateTime}

/-- Where all candidates are advanced by the same distance, two searches keep the distance to their
starts, and so the later one does not end before the earlier one. -/
theorem le_of_advanceUntil_of_keepsDistance (hkeeps : plan.KeepsDistance)
    (hstart : threshold.start ≤ threshold'.start)
    (hstrict : threshold.strict = true → threshold'.strict = true)
    (hdistance : (c.toMicros : Int) - threshold.start.toMicros =
      c'.toMicros - threshold'.start.toMicros)
    (h : term.advanceUntil plan since threshold rounds c = .ok result)
    (h' : term.advanceUntil plan since' threshold' rounds c' = .ok result') : result ≤ result' := by
  rw [DateTime.le_def] at hstart
  induction rounds using Nat.strongRecOn generalizing c c' with
  | ind rounds ih =>
    by_cases hadmits : threshold.admits c = true
    · rw [advanceUntil_of_admits rounds hadmits] at h
      obtain rfl := Except.ok.inj h
      exact DateTime.le_trans (DateTime.le_def.2 (by omega)) (le_of_advanceUntil h')
    · have hadmits' := mt (Threshold.admits_of_distance hstrict hdistance) hadmits
      obtain ⟨fewer, m, rfl, hadvance, h⟩ := exists_advance_of_advanceUntil hadmits h
      obtain ⟨fewer', m', hrounds, hadvance', h'⟩ := exists_advance_of_advanceUntil hadmits' h'
      obtain rfl := Nat.succ.inj hrounds
      have hmoved := hkeeps hadvance hadvance'
      exact ih fewer (Nat.lt_succ_self fewer) (by omega) h h'

end Distance

/-- The term names no points, and its spans are counted in units of fixed length. -/
structure HasFixedLength (term : Term) : Prop where
  points : term.points = []
  fixed : ∀ s ∈ term.spans, s.IsFixed

namespace HasFixedLength

variable {term : Term} {defaultTime : TimeOfDay} {spans front behind : List Span} {s : Span}
  {t u c c' m m' : DateTime}

theorem ladder_eq_nil (h : term.HasFixedLength) : term.ladder = [] :=
  ladder_eq_nil_iff.2 h.points

/-- A pass makes the moves of its spans, one after the other. -/
theorem settle?_eq_foldlM (h : term.HasFixedLength) (hfixed : ∀ s ∈ spans, s.IsFixed) :
    (forTerm term defaultTime).settle? (spans.map (Step.ofSpan term.points)) t =
      (spans.flatMap Span.moves).foldlM DateTime.addMicros? t := by
  have hnone : (forTerm term defaultTime).defaultTime = none := by simp [forTerm, h.points]
  have hrealign (t : DateTime) : (forTerm term defaultTime).realign? t = some t := by
    rw [realign?_forTerm, h.ladder_eq_nil]
    rfl
  have happly : applySteps (spans.map (Step.ofSpan term.points)) t =
      (spans.flatMap Span.moves).foldlM DateTime.addMicros? t := by
    rw [h.points]
    clear h
    induction spans generalizing t with
    | nil => rfl
    | cons s rest ih =>
      obtain ⟨hs, hrest⟩ := List.forall_mem_cons.1 hfixed
      have hstep : (Step.ofSpan [] s).moveTo? t = s.moves.foldlM DateTime.addMicros? t :=
        Span.moveTo?_eq_foldlM hs
      rw [List.map_cons, applySteps, hstep, List.flatMap_cons, List.foldlM_append]
      exact bind_congr fun moved => ih hrest
  have hset (t : DateTime) : (forTerm term defaultTime).setDefaultTime t = t := by
    rw [setDefaultTime, hnone]
  rw [settle?, moveBy, happly]
  cases (spans.flatMap Span.moves).foldlM DateTime.addMicros? t with
  | none => rfl
  | some moved => simp [hset, hrealign]

theorem steps_eq (h : term.HasFixedLength) :
    (forTerm term defaultTime).steps = term.spans.map (Step.ofSpan term.points) := by
  rw [forTerm, h.ladder_eq_nil, List.map_nil, List.append_nil]

/-- The attempt at a repeating span makes its moves and those of the spans behind it. -/
theorem accepts_iff (h : term.HasFixedLength) (hspans : term.spans = front ++ s :: behind)
    (hlooped : s.isLooped = true) :
    (forTerm term defaultTime).Accepts c (Step.ofSpan term.points s)
        (behind.map (Step.ofSpan term.points)) m ↔
      ((s :: behind).flatMap Span.moves).foldlM DateTime.addMicros? c = some m ∧ c < m := by
  have hfixed : ∀ r ∈ s :: behind, r.IsFixed := fun r hr =>
    h.fixed r (hspans ▸ List.mem_append_right front hr)
  obtain ⟨hs, hbehind⟩ := List.forall_mem_cons.1 hfixed
  have hholds : (forTerm term defaultTime).holdsAt m = true := by
    rw [holdsAt_forTerm, h.ladder_eq_nil]
    exact fun p hp => absurd hp List.not_mem_nil
  have hadvance {a : DateTime} : (Step.ofSpan term.points s).content.advance c = .ok a ↔
    s.moves.foldlM DateTime.addMicros? c = some a := Span.advance_eq_ok_iff_foldlM hs hlooped
  have hafter : stepsAfterAdvance (Step.ofSpan term.points s) (behind.map (Step.ofSpan term.points))
    = behind.map (Step.ofSpan term.points) := rfl
  simp only [Accepts, hadvance, hafter, h.settle?_eq_foldlM hbehind, hholds, and_true,
    List.flatMap_cons, List.foldlM_append]
  constructor
  · rintro ⟨a, ha, hm, hlater⟩
    exact ⟨Option.bind_eq_some_iff.2 ⟨a, ha, hm⟩, hlater⟩
  · rintro ⟨hm, hlater⟩
    obtain ⟨a, ha, hm⟩ := Option.bind_eq_some_iff.1 hm
    exact ⟨a, ha, hm, hlater⟩

/-- If the moves of all spans together lead back and those from some span on lead forward, then none
of the latter leads back. -/
theorem nonneg_of_mem_moves (hvalid : ValidParts term.parts)
    (hcounts : ∀ s ∈ term.spans, s.HasPositiveCounts) (hspans : term.spans = front ++ behind)
    (hback : (term.spans.flatMap Span.moves).sum ≤ 0)
    (hforward : 0 < (behind.flatMap Span.moves).sum) :
    ∀ n ∈ behind.flatMap Span.moves, 0 ≤ n := by
  have hdisjoint : term.spans.Pairwise fun r s => r.scope.Disjoint s.scope := by
    refine List.Pairwise.filterMap _ ?_ hvalid.scopes
    intro c d hdisjoint r hr s hs
    cases c with
    | point p => cases hr
    | span r' =>
      cases d with
      | point p => cases hs
      | span s' =>
        obtain rfl := Option.some.inj hr
        obtain rfl := Option.some.inj hs
        exact hdisjoint
  -- The spans in front lead back, so one of them is a day, and no other span is.
  obtain ⟨k, hk⟩ : ∃ k, .days k ∈ front := by
    refine Classical.byContradiction fun hnone => ?_
    have hnonneg : 0 ≤ (front.flatMap Span.moves).sum := by
      refine List.sum_nonneg fun n hn => ?_
      obtain ⟨s, hs, hn⟩ := List.mem_flatMap.1 hn
      refine Span.nonneg_of_mem_moves (hcounts s (hspans ▸ List.mem_append_left _ hs)) ?_ hn
      rintro k rfl
      exact hnone ⟨k, hs⟩
    rw [hspans, List.flatMap_append, List.sum_append] at hback
    omega
  intro n hn
  obtain ⟨s, hs, hn⟩ := List.mem_flatMap.1 hn
  refine Span.nonneg_of_mem_moves (hcounts s (hspans ▸ List.mem_append_right _ hs)) ?_ hn
  rintro k' rfl
  rw [hspans] at hdisjoint
  exact (List.pairwise_append.1 hdisjoint).2.2 _ hk _ hs .day ⟨rfl, rfl⟩

/-- The span by which a candidate is advanced: it repeats, and the repeating spans behind it lead to
no later instant. -/
structure AdvancedBy (term : Term) (defaultTime : TimeOfDay) (c m : DateTime) (front : List Span)
    (s : Span) (behind : List Span) : Prop where
  spans : term.spans = front ++ s :: behind
  able : (forTerm term defaultTime).canAdvance (Step.ofSpan term.points s) = .ok true
  moves : ((s :: behind).flatMap Span.moves).foldlM DateTime.addMicros? c = some m
  later : c < m
  last : ∀ mid r rest, behind = mid ++ r :: rest →
    (forTerm term defaultTime).canAdvance (Step.ofSpan term.points r) = .ok true →
    ∀ u, ((r :: rest).flatMap Span.moves).foldlM DateTime.addMicros? c = some u → ¬ c < u

theorem exists_advancedBy (h : term.HasFixedLength)
    (hadvance : (forTerm term defaultTime).advance c = .ok (some m)) :
    ∃ front s behind, AdvancedBy term defaultTime c m front s behind := by
  obtain ⟨before, step, behind, hadvanced⟩ := advanced_of_advance hadvance
  rcases step_cases hadvanced.steps with ⟨front, p, rest, hladder, -, -⟩ |
    ⟨front, s, rest, hspans, rfl, rfl⟩
  · rw [h.ladder_eq_nil] at hladder
    simp at hladder
  · have hbehind : rest.map (Step.ofSpan term.points) ++
        term.ladder.map (Step.ofPoint term.points) = rest.map (Step.ofSpan term.points) := by
      rw [h.ladder_eq_nil, List.map_nil, List.append_nil]
    have haccepts := hadvanced.accepts
    rw [hbehind, h.accepts_iff hspans (isLooped_of_canAdvance hadvanced.able)] at haccepts
    refine ⟨front, s, rest, hspans, hadvanced.able, haccepts.1, haccepts.2, ?_⟩
    intro mid r last hrest hable u hu hlater
    have hsplit : term.spans = (front ++ s :: mid) ++ r :: last := by rw [hspans, hrest]; simp
    have hvain := hadvanced.inVain (mid.map (Step.ofSpan term.points)) (Step.ofSpan term.points r)
      (last.map (Step.ofSpan term.points)) (by rw [hbehind, hrest]; simp)
    exact (hvain hable).2 u ((h.accepts_iff hsplit (isLooped_of_canAdvance hable)).2 ⟨hu, hlater⟩)

/-- Where all spans together lead back, no candidate is advanced by a span in front of one by which
another candidate is. -/
theorem AdvancedBy.not_before {mid : List Span} {r : Span} {rest : List Span}
    (hvalid : ValidParts term.parts) (hcounts : ∀ s ∈ term.spans, s.HasPositiveCounts)
    (hback : (term.spans.flatMap Span.moves).sum ≤ 0)
    (h : AdvancedBy term defaultTime c m front s (mid ++ r :: rest))
    (h' : AdvancedBy term defaultTime c' m' (front ++ s :: mid) r rest) : False := by
  have hm := DateTime.toMicros_of_foldlM_addMicros? h.moves
  have hm' := DateTime.toMicros_of_foldlM_addMicros? h'.moves
  have hlater := DateTime.lt_def.1 h.later
  have hlater' := DateTime.lt_def.1 h'.later
  have hnonneg := nonneg_of_mem_moves hvalid hcounts h.spans hback (by omega)
  rw [← List.cons_append, List.flatMap_append] at hm hnonneg
  have hfront : 0 ≤ ((s :: mid).flatMap Span.moves).sum :=
    List.sum_nonneg fun n hn => hnonneg n (List.mem_append_left _ hn)
  rw [List.sum_append] at hm
  -- The moves from the later span on would have led the other candidate forward as well.
  obtain ⟨u, hu⟩ : ∃ u : DateTime,
      (u.toMicros : Int) = c.toMicros + ((r :: rest).flatMap Span.moves).sum :=
    DateTime.exists_toMicros_eq (u := m) (by omega) (by omega)
  have hmoves := DateTime.foldlM_addMicros?_of_nonneg
    (fun n hn => hnonneg n (List.mem_append_right _ hn)) hu
  exact h.last mid r rest rfl h'.able u hmoves (DateTime.lt_def.2 (by omega))

/-- Where all spans together lead back, all candidates are advanced by the same span. -/
theorem AdvancedBy.eq_of_append {mid : List Span} (hvalid : ValidParts term.parts)
    (hcounts : ∀ s ∈ term.spans, s.HasPositiveCounts)
    (hback : (term.spans.flatMap Span.moves).sum ≤ 0)
    (h : AdvancedBy term defaultTime c m front s behind)
    (h' : AdvancedBy term defaultTime c' m' (front ++ mid) r rest)
    (hbehind : s :: behind = mid ++ r :: rest) : mid = [] ∧ s = r ∧ behind = rest := by
  cases mid with
  | nil => exact ⟨rfl, List.cons.inj hbehind⟩
  | cons first mid =>
    obtain ⟨rfl, rfl⟩ := List.cons.inj hbehind
    exact (AdvancedBy.not_before hvalid hcounts hback h h').elim

/-- Where all spans together lead back, all candidates are advanced by the same distance. -/
theorem keepsDistance (h : term.HasFixedLength) (hvalid : ValidParts term.parts)
    (hcounts : ∀ s ∈ term.spans, s.HasPositiveCounts)
    (hback : (term.spans.flatMap Span.moves).sum ≤ 0) :
    (forTerm term defaultTime).KeepsDistance := by
  intro c c' m m' hm hm'
  obtain ⟨front, s, behind, hby⟩ := h.exists_advancedBy hm
  obtain ⟨front', s', behind', hby'⟩ := h.exists_advancedBy hm'
  have hmoves := DateTime.toMicros_of_foldlM_addMicros? hby.moves
  have hmoves' := DateTime.toMicros_of_foldlM_addMicros? hby'.moves
  rcases List.append_eq_append_iff.1 (hby.spans.symm.trans hby'.spans) with
    ⟨mid, rfl, hbehind⟩ | ⟨mid, rfl, hbehind⟩
  · obtain ⟨rfl, rfl, rfl⟩ := hby.eq_of_append hvalid hcounts hback hby' hbehind
    omega
  · obtain ⟨rfl, rfl, rfl⟩ := hby'.eq_of_append hvalid hcounts hback hby hbehind
    omega

/-- A later search by moves of a fixed length does not end before an earlier one. -/
theorem le_of_searchBy {strict : Bool} {bounds : Bounds} {since since' result result' : DateTime}
    (h : term.HasFixedLength) (hvalid : ValidParts term.parts)
    (hcounts : ∀ s ∈ term.spans, s.HasPositiveCounts) (hle : since ≤ since')
    (hsearch : term.searchBy (forTerm term defaultTime) since strict bounds = .ok result)
    (hsearch' : term.searchBy (forTerm term defaultTime) since' strict bounds = .ok result') :
    result ≤ result' := by
  obtain ⟨first, hfirst, hrun, -⟩ := searchBy_eq_ok_iff.1 hsearch
  obtain ⟨first', hfirst', hrun', -⟩ := searchBy_eq_ok_iff.1 hsearch'
  rw [h.steps_eq, h.settle?_eq_foldlM h.fixed] at hfirst hfirst'
  have hmoves := DateTime.toMicros_of_foldlM_addMicros? hfirst
  have hmoves' := DateTime.toMicros_of_foldlM_addMicros? hfirst'
  have hstart : (Threshold.of since strict bounds.lower).start ≤
    (Threshold.of since' strict bounds.lower).start := Threshold.start_le_of_le hle
  by_cases hback : (term.spans.flatMap Span.moves).sum ≤ 0
  · exact le_of_advanceUntil_of_keepsDistance (h.keepsDistance hvalid hcounts hback) hstart
      (Threshold.strict_of_le hle) (by omega) hrun hrun'
  · have hahead : (Threshold.of since strict bounds.lower).start < first :=
      DateTime.lt_def.2 (by omega)
    have hresult := (advanceUntil_of_admits _ (Threshold.admits_of_lt hahead)).symm.trans hrun
    obtain rfl := Except.ok.inj hresult
    refine DateTime.le_trans (DateTime.le_def.2 ?_) (le_of_advanceUntil hrun')
    rw [DateTime.le_def] at hstart
    omega

end HasFixedLength

end Term

end TimePhrase
