import TimePhrase.Proofs.Occurrence.Rhythm
import TimePhrase.Proofs.Part.Forward

/-!
# Searches that start ahead

A span that does not repeat and leads at least as far as the unit by which the coarsest point of
a term recurs takes every search into a later cycle of that point. The first candidate lies behind
the instant from which the search starts, and nothing is ever advanced.
-/

namespace TimePhrase

open Plan

namespace Span

/-- The span does not repeat, and leads as far ahead as the unit or farther. -/
def LeadsAhead (s : Span) (unit : TimeUnit) : Prop :=
  match s with
  | counts cs looped => looped = false ∧ ∃ c ∈ cs, c.1.rank ≤ unit.rank
  | days count => unit = .day ∧ 0 < count

variable {s : Span} {t m : DateTime} {p : Point} {unit : TimeUnit} {cs : List (TimeUnit × Int)}
  {fenced : Bool}

theorem cycleIndex_lt_of_addCounts? (hcycle : p.cycle? = some unit)
    (hunits : ∀ c ∈ cs, c.1.isDayOrCoarser = true) (hcounts : ∀ c ∈ cs, 0 < c.2)
    (hlong : ∃ c ∈ cs, c.1.rank ≤ unit.rank) (h : addCounts? t cs = some m) :
    p.cycleIndex t.date < p.cycleIndex m.date := by
  induction cs generalizing t with
  | nil =>
    obtain ⟨c, hc, -⟩ := hlong
    cases hc
  | cons c rest ih =>
    obtain ⟨hunit, hrestUnits⟩ := List.forall_mem_cons.1 hunits
    obtain ⟨hcount, hrestCounts⟩ := List.forall_mem_cons.1 hcounts
    obtain ⟨moved, hmoved, hrest⟩ := Option.bind_eq_some_iff.1 h
    obtain ⟨long, hmem, hlong⟩ := hlong
    rcases List.mem_cons.1 hmem with rfl | hmem
    · exact Nat.lt_of_lt_of_le (Point.cycleIndex_lt_of_addSpan? hcycle hlong hcount hmoved)
        (Point.cycleIndex_le_of_toDays_le (DateTime.toDays_le_of_le
          (le_of_addCounts? (fun c hc => Int.le_of_lt (hrestCounts c hc)) hrest)))
    · exact Nat.lt_of_le_of_lt (Point.cycleIndex_le_of_toDays_le
          (Nat.le_of_lt (DateTime.toDays_lt_of_addSpan? hunit hcount hmoved)))
        (ih hrestUnits hrestCounts ⟨long, hmem, hlong⟩ hrest)

theorem cycleIndex_lt_of_moveTo? (hcycle : p.cycle? = some unit) (hleaves : s.LeavesTime)
    (hforward : s.LeadsForward) (hahead : s.LeadsAhead unit) (h : s.moveTo? t false = some m) :
    p.cycleIndex t.date < p.cycleIndex m.date := by
  cases s with
  | days count =>
    obtain ⟨rfl, hcount⟩ := hahead
    have hmoved : t.addSpan? .day count = some m := h
    exact Point.cycleIndex_lt_of_addSpan? hcycle (Nat.le_refl _) hcount hmoved
  | counts cs looped =>
    exact cycleIndex_lt_of_addCounts? hcycle hleaves.isDayOrCoarser hforward hahead.2 h

end Span

/-- A pass through spans that lead forward leads back to no earlier instant. -/
theorem Plan.le_of_applySteps_spans {points : List Point} {spans : List Span} {t m : DateTime}
    (hforward : ∀ s ∈ spans, s.LeadsForward)
    (h : applySteps (spans.map (Step.ofSpan points)) t = some m) : t ≤ m := by
  induction spans generalizing t with
  | nil => exact Option.some.inj h ▸ Nat.le_refl _
  | cons s rest ih =>
    obtain ⟨hs, hforward⟩ := List.forall_mem_cons.1 hforward
    obtain ⟨moved, hmoved, hrest⟩ := Option.bind_eq_some_iff.1 h
    exact DateTime.le_trans (hs.le_of_moveTo? hmoved) (ih hforward hrest)

namespace Term

/-- Some span leads as far ahead as the unit by which the coarsest point recurs, and none leads
back. -/
structure StartsAhead (term : Term) (top : Point) (unit : TimeUnit) : Prop
    extends RecursBy term top unit where
  ahead : ∃ s ∈ term.spans, s.LeadsAhead unit
  forward : ∀ s ∈ term.spans, s.LeadsForward

namespace StartsAhead

variable {term : Term} {defaultTime : TimeOfDay} {top : Point} {unit : TimeUnit}
  {start c m since result : DateTime} {strict : Bool} {bounds : Bounds}

/-- The first candidate of a search lies behind the instant from which it starts. -/
theorem lt_of_settle? (h : term.StartsAhead top unit) (hcoherent : term.Coherent)
    (hfirst : (forTerm term defaultTime).settle? (forTerm term defaultTime).steps start = some c) :
    start < c := by
  obtain ⟨below, hladder⟩ := List.head?_eq_some_iff.1 h.coarsest
  obtain ⟨x, hx, hsettle⟩ := settle?_steps_eq_some_iff.1 hfirst
  obtain ⟨s, hs, hahead⟩ := h.ahead
  obtain ⟨front, behind, hspans⟩ := List.append_of_mem hs
  have hleaves := h.leavesTime
  have hforward := h.forward
  rw [hspans, List.map_append, List.map_cons, applySteps_append] at hx
  rw [hspans, List.forall_mem_append, List.forall_mem_cons] at hleaves hforward
  obtain ⟨t, ht, hx⟩ := Option.bind_eq_some_iff.1 hx
  obtain ⟨u, hu, hx⟩ := Option.bind_eq_some_iff.1 hx
  have hunfenced : (Step.ofSpan term.points s).fenced = false := by
    cases s with
    | counts cs looped => simp [Step.ofSpan, Span.isLooped, hahead.1]
    | days count => simp [Step.ofSpan, Span.isLooped]
  have hu : s.moveTo? t (Step.ofSpan term.points s).fenced = some u := hu
  rw [hunfenced] at hu
  have hfront := Point.cycleIndex_le_of_toDays_le (p := top)
    (DateTime.toDays_le_of_le (le_of_applySteps_spans hforward.1 ht))
  have hlong := Span.cycleIndex_lt_of_moveTo? h.cycle hleaves.2.1 hforward.2.1 hahead hu
  have hbehind := Point.cycleIndex_le_of_toDays_le (p := top)
    (DateTime.toDays_le_of_le (le_of_applySteps_spans hforward.2.2 hx))
  have hpoints := hcoherent.cycleIndex_of_settle?_ladder hladder hsettle
  have hlater : top.RecursBetween start.date c.date := by
    unfold Point.RecursBetween
    omega
  exact DateTime.lt_iff.2 (Or.inl hlater.toDays_lt)

/-- The first candidate of a search is its result. -/
theorem settle?_of_searchBy (h : term.StartsAhead top unit) (hvalid : ValidParts term.parts)
    (hsearch : term.searchBy (forTerm term defaultTime) since strict bounds = .ok result) :
    (forTerm term defaultTime).settle? (forTerm term defaultTime).steps
      (Threshold.of since strict bounds.lower).start = some result := by
  obtain ⟨first, hfirst, hrun, -⟩ := searchBy_eq_ok_iff.1 hsearch
  have hadmits : (Threshold.of since strict bounds.lower).admits first = true := by
    refine Classical.byContradiction fun hearly => ?_
    obtain ⟨fewer, moved, -, hadvance, -⟩ := exists_advance_of_advanceUntil hearly hrun
    have hcoherent := coherent_of_advance hvalid hadvance
    exact hearly (Threshold.admits_of_lt (h.lt_of_settle? hcoherent hfirst))
  rw [advanceUntil_of_admits _ hadmits] at hrun
  exact Except.ok.inj hrun ▸ hfirst

/-- A later search does not end before an earlier one. -/
theorem le_of_searchBy {since' result' : DateTime} (h : term.StartsAhead top unit)
    (hvalid : ValidParts term.parts) (hle : since ≤ since')
    (hsearch : term.searchBy (forTerm term defaultTime) since strict bounds = .ok result)
    (hsearch' : term.searchBy (forTerm term defaultTime) since' strict bounds = .ok result') :
    result ≤ result' :=
  h.startsInOrder hvalid (Threshold.start_le_of_le hle) (h.settle?_of_searchBy hvalid hsearch)
    (h.settle?_of_searchBy hvalid hsearch')

end StartsAhead

end Term

end TimePhrase
