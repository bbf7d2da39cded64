import Mathlib.Data.List.Forall2
import TimePhrase.Pattern

/-!
# Texts that a pattern cannot tell apart

Where two texts have, place by place, characters that no class of a pattern tells apart, the pattern
matches both in the same ways, and the pieces that are kept of the one stand in the same places as
those of the other.
-/

namespace TimePhrase

variable {γ : Type} {same : Char → Char → Bool} {R : Char → Char → Prop}

theorem runs_alike {accepts : Char → Bool} (haccepts : ∀ c d, R c d → accepts c = accepts d)
    {least : Nat} {most : Option Nat} {found others : List (List Char)}
    (hfound : List.Forall₂ (List.Forall₂ R) found others) {text other : List Char}
    (h : List.Forall₂ R text other) :
    List.Forall₂ (List.Forall₂ R) (runs accepts least most found text)
      (runs accepts least most others other) := by
  induction h generalizing least most found others with
  | nil =>
    unfold runs
    split
    · exact .cons .nil hfound
    · exact hfound
  | @cons c d cs ds hc hcs ih =>
    have hfound' : List.Forall₂ (List.Forall₂ R) (if least = 0 then (c :: cs) :: found else found)
        (if least = 0 then (d :: ds) :: others else others) := by
      split
      · exact .cons (.cons hc hcs) hfound
      · exact hfound
    unfold runs
    rw [haccepts _ _ hc]
    dsimp only
    split
    · exact ih hfound'
    · exact hfound'

/-- The pieces are alike, and so is the text behind them. -/
structure Slice.Alike (R : Char → Char → Prop) (s t : Slice) : Prop where
  start : List.Forall₂ R s.start t.start
  stop : List.Forall₂ R s.stop t.stop

theorem Slice.Alike.chars {s t : Slice} (h : s.Alike R t) : List.Forall₂ R s.chars t.chars := by
  rw [Slice.chars, Slice.chars, h.start.length_eq, h.stop.length_eq]
  exact List.forall₂_take _ h.start

/-- Texts have been matched alike. -/
structure Match.Alike (R : Char → Char → Prop) (m n : Match γ) : Prop where
  rest : List.Forall₂ R m.rest n.rest
  groups : List.Forall₂ (fun kept other => kept.1 = other.1 ∧ kept.2.Alike R other.2)
    m.groups n.groups

theorem Match.Alike.group? [DecidableEq γ] {m n : Match γ} (h : m.Alike R n) (label : γ) :
    Option.Rel (List.Forall₂ R) (m.group? label) (n.group? label) := by
  obtain ⟨-, hgroups⟩ := h
  unfold Match.group?
  generalize m.groups = groups, n.groups = others at hgroups
  induction hgroups with
  | nil => exact .none
  | @cons kept other _ _ hkept _ ih =>
    obtain ⟨hlabel, hslice⟩ := hkept
    by_cases hfound : other.1 = label
    · rw [List.find?_cons_of_pos (by simpa [hlabel] using hfound),
        List.find?_cons_of_pos (by simpa using hfound)]
      exact .some hslice.chars
    · rw [List.find?_cons_of_neg (by simpa [hlabel] using hfound),
        List.find?_cons_of_neg (by simpa using hfound)]
      exact ih

namespace Pattern

/-- The classes of characters that a pattern asks about. The end of a text is told from its other
characters by the class of those that end no line. -/
def classes : Pattern γ → List CharClass
  | empty => []
  | one k | run k _ _ => [k]
  | seq p q | alt p q => p.classes ++ q.classes
  | optional p | followedBy p | notFollowedBy p | group _ p => p.classes
  | atEnd => [.any]

/-- No class of the pattern tells related characters apart. -/
def Blind (same : Char → Char → Bool) (R : Char → Char → Prop) (p : Pattern γ) : Prop :=
  ∀ k ∈ p.classes, ∀ c d, R c d → k.accepts same c = k.accepts same d

theorem eq_end_iff {text other : List Char} (h : List.Forall₂ R text other)
    (hany : ∀ c d, R c d → CharClass.any.accepts same c = CharClass.any.accepts same d) :
    (text = [] ∨ text = ['\n']) ↔ other = [] ∨ other = ['\n'] := by
  cases h with
  | nil => simp
  | cons hc hcs =>
    have hline := hany _ _ hc
    simp only [CharClass.accepts, ne_eq, decide_eq_decide, not_iff_not] at hline
    cases hcs with
    | nil => simpa using hline
    | cons _ _ => simp

/-- A pattern matches two texts alike that it cannot tell apart. -/
theorem matches?_alike {p : Pattern γ} (hp : p.Blind same R) {m n : Match γ} (h : m.Alike R n) :
    List.Forall₂ (Match.Alike R) (p.matches? same m) (p.matches? same n) := by
  induction p generalizing m n with
  | empty => exact .cons h .nil
  | one k =>
    obtain ⟨hrest, hgroups⟩ := h
    unfold matches?
    generalize hm : m.rest = text at hrest
    generalize hn : n.rest = other at hrest
    cases hrest with
    | nil => exact .nil
    | cons hc hcs =>
      dsimp only
      rw [hp k (List.mem_singleton.2 rfl) _ _ hc]
      split
      · exact .cons ⟨hcs, hgroups⟩ .nil
      · exact .nil
  | run k least most =>
    exact List.rel_map (fun _ _ hrest => ⟨hrest, h.groups⟩)
      (runs_alike (hp k (List.mem_singleton.2 rfl)) .nil h.rest)
  | seq p q ihp ihq =>
    have hp' : p.Blind same R := fun k hk => hp k (List.mem_append_left _ hk)
    have hq' : q.Blind same R := fun k hk => hp k (List.mem_append_right _ hk)
    exact List.rel_flatMap (ihp hp' h) fun _ _ => ihq hq'
  | alt p q ihp ihq =>
    have hp' : p.Blind same R := fun k hk => hp k (List.mem_append_left _ hk)
    have hq' : q.Blind same R := fun k hk => hp k (List.mem_append_right _ hk)
    exact List.rel_append (ihp hp' h) (ihq hq' h)
  | optional p ih => exact List.rel_append (ih hp h) (.cons h .nil)
  | followedBy p ih =>
    have hfirst := ih hp h
    unfold matches?
    generalize p.matches? same m = found, p.matches? same n = others at hfirst
    cases hfirst with
    | nil => exact .nil
    | cons hfound _ => exact .cons ⟨h.rest, hfound.groups⟩ .nil
  | notFollowedBy p ih =>
    have hfirst := ih hp h
    unfold matches?
    generalize p.matches? same m = found, p.matches? same n = others at hfirst
    cases hfirst with
    | nil => exact .cons h .nil
    | cons _ _ => exact .nil
  | atEnd =>
    have hend := eq_end_iff h.rest (hp .any (List.mem_singleton.2 rfl))
    unfold matches?
    by_cases hm : m.rest = [] ∨ m.rest = ['\n']
    · rw [if_pos hm, if_pos (hend.1 hm)]
      exact .cons h .nil
    · rw [if_neg hm, if_neg (mt hend.2 hm)]
      exact .nil
  | group label p ih =>
    refine List.rel_map (fun found other hfound => ?_) (ih hp h)
    exact ⟨hfound.rest, .cons ⟨rfl, h.rest, hfound.rest⟩ hfound.groups⟩

theorem first?_alike {p : Pattern γ} (hp : p.Blind same R) {text other : List Char}
    (h : List.Forall₂ R text other) :
    Option.Rel (Match.Alike R) (p.first? same text) (p.first? same other) := by
  have hmatches := @matches?_alike γ same R p hp ⟨text, []⟩ ⟨other, []⟩ ⟨h, .nil⟩
  unfold first?
  generalize p.matches? same ⟨text, []⟩ = found, p.matches? same ⟨other, []⟩ = others at hmatches
  cases hmatches with
  | nil => exact .none
  | cons hfound _ => exact .some hfound

end Pattern

end TimePhrase
