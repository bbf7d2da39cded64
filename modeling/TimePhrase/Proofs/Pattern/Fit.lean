import Mathlib.Data.List.Forall2
import TimePhrase.Proofs.Pattern

/-!
# What the pieces of a match are

A match says nothing about how it came about. Here a text fits a pattern by its structure, with
the pieces that are kept on the way. What may be kept under a label is found in the pattern
itself: the parts of the pattern that carry the label, and the words that such a part stands for.
-/

namespace TimePhrase

namespace Match

variable {γ : Type} [DecidableEq γ] {m : Match γ} {label : γ}

theorem exists_of_group? {chars : List Char} (h : m.group? label = some chars) :
    ∃ s, (label, s) ∈ m.groups ∧ s.chars = chars := by
  obtain ⟨⟨other, s⟩, hfind, rfl⟩ := Option.map_eq_some_iff.1 h
  have hother := List.find?_some hfind
  obtain rfl : other = label := of_decide_eq_true hother
  exact ⟨s, List.mem_of_find?_eq_some hfind, rfl⟩

theorem group?_eq_none_iff : m.group? label = none ↔ ∀ g ∈ m.groups, g.1 ≠ label := by
  simp [group?, List.find?_eq_none]

end Match

namespace Pattern

variable {γ : Type} {same : Char → Char → Bool} {p : Pattern γ} {start stop : List Char}
  {kept : List (γ × Slice)}

/-- A text begins with the pattern and goes on with `stop`, and pieces of it are kept. -/
def Fits (same : Char → Char → Bool) :
    Pattern γ → List Char → List Char → List (γ × Slice) → Prop
  | empty, start, stop, kept => start = stop ∧ kept = []
  | one k, start, stop, kept => (∃ c, k.accepts same c = true ∧ start = c :: stop) ∧ kept = []
  | run k _ _, start, stop, kept =>
    (∃ chars, (∀ c ∈ chars, k.accepts same c = true) ∧ start = chars ++ stop) ∧ kept = []
  | seq p q, start, stop, kept => ∃ middle before after,
    p.Fits same start middle before ∧ q.Fits same middle stop after ∧ kept = after ++ before
  | alt p q, start, stop, kept => p.Fits same start stop kept ∨ q.Fits same start stop kept
  | optional p, start, stop, kept => p.Fits same start stop kept ∨ start = stop ∧ kept = []
  | followedBy p, start, stop, kept => start = stop ∧ ∃ later, p.Fits same start later kept
  | notFollowedBy _, start, stop, kept => start = stop ∧ kept = []
  | atEnd, start, stop, kept => start = stop ∧ kept = []
  | group label p, start, stop, kept =>
    ∃ inner, p.Fits same start stop inner ∧ kept = (label, ⟨start, stop⟩) :: inner

theorem fits_of_mem_matches? {m found : Match γ} (h : found ∈ p.matches? same m) :
    ∃ kept, found.groups = kept ++ m.groups ∧ p.Fits same m.rest found.rest kept := by
  induction p generalizing m found with
  | empty =>
    obtain rfl := List.mem_singleton.1 h
    exact ⟨[], rfl, rfl, rfl⟩
  | one k =>
    obtain ⟨c, rest, hrest, hc, rfl⟩ := mem_matches?_one.1 h
    exact ⟨[], rfl, ⟨c, hc, hrest⟩, rfl⟩
  | run k least most =>
    obtain ⟨chars, rest, htext, hchars, -, rfl⟩ := exists_of_mem_matches?_run h
    exact ⟨[], rfl, ⟨chars, hchars, htext⟩, rfl⟩
  | seq p q ihp ihq =>
    obtain ⟨middle, hmiddle, hfound⟩ := List.mem_flatMap.1 h
    obtain ⟨before, hbefore, hp⟩ := ihp hmiddle
    obtain ⟨after, hafter, hq⟩ := ihq hfound
    exact ⟨after ++ before, by rw [hafter, hbefore, List.append_assoc], _, _, _, hp, hq, rfl⟩
  | alt p q ihp ihq =>
    rcases List.mem_append.1 h with h | h
    · obtain ⟨kept, hkept, hp⟩ := ihp h
      exact ⟨kept, hkept, .inl hp⟩
    · obtain ⟨kept, hkept, hq⟩ := ihq h
      exact ⟨kept, hkept, .inr hq⟩
  | optional p ih =>
    rcases List.mem_append.1 h with h | h
    · obtain ⟨kept, hkept, hp⟩ := ih h
      exact ⟨kept, hkept, .inl hp⟩
    · obtain rfl := List.mem_singleton.1 h
      exact ⟨[], rfl, .inr ⟨rfl, rfl⟩⟩
  | followedBy p ih =>
    obtain ⟨first, hfirst, rfl⟩ := mem_matches?_followedBy.1 h
    obtain ⟨kept, hkept, hp⟩ := ih (List.mem_of_mem_head? hfirst)
    exact ⟨kept, hkept, rfl, _, hp⟩
  | notFollowedBy p ih =>
    obtain ⟨-, rfl⟩ := mem_matches?_notFollowedBy.1 h
    exact ⟨[], rfl, rfl, rfl⟩
  | atEnd =>
    obtain ⟨-, rfl⟩ := mem_matches?_atEnd.1 h
    exact ⟨[], rfl, rfl, rfl⟩
  | group label p ih =>
    obtain ⟨inner, hinner, rfl⟩ := List.mem_map.1 h
    obtain ⟨kept, hkept, hp⟩ := ih hinner
    exact ⟨(label, ⟨m.rest, inner.rest⟩) :: kept, by rw [hkept, List.cons_append], kept, hp, rfl⟩

theorem Fits.suffix (h : p.Fits same start stop kept) : stop <:+ start := by
  induction p generalizing start stop kept with
  | empty | notFollowedBy | atEnd | followedBy => exact h.1 ▸ List.suffix_refl _
  | one k =>
    obtain ⟨⟨c, -, rfl⟩, -⟩ := h
    exact List.suffix_cons ..
  | run k least most =>
    obtain ⟨⟨chars, -, rfl⟩, -⟩ := h
    exact List.suffix_append ..
  | seq p q ihp ihq =>
    obtain ⟨_, _, _, hp, hq, -⟩ := h
    exact (ihq hq).trans (ihp hp)
  | alt p q ihp ihq => exact h.elim ihp ihq
  | optional p ih => exact h.elim ih fun h => h.1 ▸ List.suffix_refl _
  | group label p ih =>
    obtain ⟨_, hp, -⟩ := h
    exact ih hp

/-- What a text goes on with behind a pattern is an end of the text. -/
theorem rest_suffix_of_first? {text : List Char} {m : Match γ} (h : p.first? same text = some m) :
    m.rest <:+ text := by
  obtain ⟨kept, -, hfits⟩ := fits_of_mem_matches? (List.mem_of_mem_head? h)
  exact hfits.suffix

section Labels

variable [DecidableEq γ] {label : γ}

/-- The parts of a pattern whose pieces are kept under a label. -/
def captures (label : γ) : Pattern γ → List (Pattern γ)
  | empty | one _ | run .. | notFollowedBy _ | atEnd => []
  | seq p q | alt p q => p.captures label ++ q.captures label
  | optional p | followedBy p => p.captures label
  | group other p => if other = label then p :: p.captures label else p.captures label

/-- Some piece is kept under a label whenever a text fits the pattern. -/
def always (label : γ) : Pattern γ → Bool
  | empty | one _ | run .. | notFollowedBy _ | atEnd | optional _ => false
  | seq p q => p.always label || q.always label
  | alt p q => p.always label && q.always label
  | followedBy p => p.always label
  | group other p => other = label || p.always label

/-- The ways to fit a pattern without keeping a piece under a label, if there are any. -/
def without? (label : γ) : Pattern γ → Option (Pattern γ)
  | seq p q => do return seq (← p.without? label) (← q.without? label)
  | alt p q =>
    match p.without? label, q.without? label with
    | some p, some q => some (alt p q)
    | some p, none => some p
    | none, other => other
  | optional p => some ((p.without? label).elim empty optional)
  | followedBy p => (p.without? label).map followedBy
  | group other p => if other = label then none else (p.without? label).map (group other)
  | p => some p

theorem Fits.of_mem_kept (h : p.Fits same start stop kept) {s : Slice} (hs : (label, s) ∈ kept) :
    s.start <:+ start ∧ ∃ q ∈ p.captures label, ∃ inner, q.Fits same s.start s.stop inner := by
  induction p generalizing start stop kept with
  | empty | notFollowedBy | atEnd | one | run =>
    rw [h.2] at hs
    exact absurd hs List.not_mem_nil
  | seq p q ihp ihq =>
    obtain ⟨middle, before, after, hp, hq, rfl⟩ := h
    rcases List.mem_append.1 hs with hs | hs
    · obtain ⟨hsuffix, r, hr, hfits⟩ := ihq hq hs
      exact ⟨hsuffix.trans hp.suffix, r, List.mem_append_right _ hr, hfits⟩
    · obtain ⟨hsuffix, r, hr, hfits⟩ := ihp hp hs
      exact ⟨hsuffix, r, List.mem_append_left _ hr, hfits⟩
  | alt p q ihp ihq =>
    rcases h with h | h
    · obtain ⟨hsuffix, r, hr, hfits⟩ := ihp h hs
      exact ⟨hsuffix, r, List.mem_append_left _ hr, hfits⟩
    · obtain ⟨hsuffix, r, hr, hfits⟩ := ihq h hs
      exact ⟨hsuffix, r, List.mem_append_right _ hr, hfits⟩
  | optional p ih =>
    rcases h with h | ⟨-, rfl⟩
    · exact ih h hs
    · exact absurd hs List.not_mem_nil
  | followedBy p ih =>
    obtain ⟨rfl, later, h⟩ := h
    exact ih h hs
  | group other p ih =>
    obtain ⟨inner, hp, rfl⟩ := h
    rw [captures]
    rcases List.mem_cons.1 hs with heq | hs
    · obtain ⟨rfl, rfl⟩ := Prod.mk.inj heq
      rw [if_pos rfl]
      exact ⟨List.suffix_refl _, p, List.mem_cons_self .., inner, hp⟩
    · obtain ⟨hsuffix, r, hr, hfits⟩ := ih hp hs
      refine ⟨hsuffix, r, ?_, hfits⟩
      split
      · exact List.mem_cons_of_mem _ hr
      · exact hr

/-- What is kept under a label fits a part of the pattern that carries the label. -/
theorem Fits.exists_capture {m : Match γ} {chars : List Char}
    (h : p.Fits same start stop m.groups) (hchars : m.group? label = some chars) :
    ∃ q ∈ p.captures label, ∃ rest inner,
      chars ++ rest <:+ start ∧ q.Fits same (chars ++ rest) rest inner := by
  obtain ⟨s, hs, rfl⟩ := Match.exists_of_group? hchars
  obtain ⟨hsuffix, q, hq, inner, hfits⟩ := h.of_mem_kept hs
  obtain ⟨before, hbefore⟩ := hfits.suffix
  have hslice : s.chars ++ s.stop = s.start := by
    simp [Slice.chars, ← hbefore]
  exact ⟨q, hq, s.stop, inner, hslice ▸ hsuffix, hslice ▸ hfits⟩

theorem Fits.group?_eq_none {m : Match γ} (h : p.Fits same start stop m.groups)
    (hnone : (p.captures label).isEmpty = true) : m.group? label = none := by
  cases hgroup : m.group? label with
  | none => rfl
  | some chars =>
    obtain ⟨q, hq, -⟩ := h.exists_capture hgroup
    rw [List.isEmpty_iff.1 hnone] at hq
    exact absurd hq List.not_mem_nil

theorem Fits.exists_mem_kept (h : p.Fits same start stop kept) (halways : p.always label = true) :
    ∃ s, (label, s) ∈ kept := by
  induction p generalizing start stop kept with
  | empty | notFollowedBy | atEnd | one | run | optional => exact absurd halways nofun
  | seq p q ihp ihq =>
    obtain ⟨middle, before, after, hp, hq, rfl⟩ := h
    rcases Bool.or_eq_true_iff.1 halways with halways | halways
    · obtain ⟨s, hs⟩ := ihp hp halways
      exact ⟨s, List.mem_append_right _ hs⟩
    · obtain ⟨s, hs⟩ := ihq hq halways
      exact ⟨s, List.mem_append_left _ hs⟩
  | alt p q ihp ihq =>
    obtain ⟨hp, hq⟩ := Bool.and_eq_true_iff.1 halways
    exact h.elim (ihp · hp) (ihq · hq)
  | followedBy p ih =>
    obtain ⟨-, later, h⟩ := h
    exact ih h halways
  | group other p ih =>
    obtain ⟨inner, hp, rfl⟩ := h
    rcases Bool.or_eq_true_iff.1 halways with hother | halways
    · obtain rfl := of_decide_eq_true hother
      exact ⟨_, List.mem_cons_self ..⟩
    · obtain ⟨s, hs⟩ := ih hp halways
      exact ⟨s, List.mem_cons_of_mem _ hs⟩

/-- What keeps nothing under a label fits without it. -/
theorem Fits.without? (h : p.Fits same start stop kept) (hnone : ∀ g ∈ kept, g.1 ≠ label) :
    ∃ q, p.without? label = some q ∧ q.Fits same start stop kept := by
  induction p generalizing start stop kept with
  | empty | notFollowedBy | atEnd | one | run => exact ⟨_, rfl, h⟩
  | seq p q ihp ihq =>
    obtain ⟨middle, before, after, hp, hq, rfl⟩ := h
    obtain ⟨p', hp', hfitsp⟩ := ihp hp fun g hg => hnone g (List.mem_append_right _ hg)
    obtain ⟨q', hq', hfitsq⟩ := ihq hq fun g hg => hnone g (List.mem_append_left _ hg)
    exact ⟨seq p' q', by rw [Pattern.without?, hp', hq']; rfl, _, _, _, hfitsp, hfitsq, rfl⟩
  | alt p q ihp ihq =>
    rw [Pattern.without?]
    rcases h with h | h
    · obtain ⟨p', hp', hfits⟩ := ihp h hnone
      rw [hp']
      cases q.without? label with
      | none => exact ⟨p', rfl, hfits⟩
      | some q' => exact ⟨alt p' q', rfl, .inl hfits⟩
    · obtain ⟨q', hq', hfits⟩ := ihq h hnone
      rw [hq']
      cases p.without? label with
      | none => exact ⟨q', rfl, hfits⟩
      | some p' => exact ⟨alt p' q', rfl, .inr hfits⟩
  | optional p ih =>
    rcases h with h | ⟨rfl, rfl⟩
    · obtain ⟨p', hp', hfits⟩ := ih h hnone
      exact ⟨optional p', by rw [Pattern.without?, hp']; rfl, .inl hfits⟩
    · rw [Pattern.without?]
      cases p.without? label with
      | none => exact ⟨empty, rfl, rfl, rfl⟩
      | some p' => exact ⟨optional p', rfl, .inr ⟨rfl, rfl⟩⟩
  | followedBy p ih =>
    obtain ⟨rfl, later, h⟩ := h
    obtain ⟨p', hp', hfits⟩ := ih h hnone
    exact ⟨followedBy p', by rw [Pattern.without?, hp']; rfl, rfl, later, hfits⟩
  | group other p ih =>
    obtain ⟨inner, hp, rfl⟩ := h
    obtain ⟨p', hp', hfits⟩ := ih hp fun g hg => hnone g (List.mem_cons_of_mem _ hg)
    have hother : other ≠ label := hnone _ (List.mem_cons_self ..)
    exact ⟨group other p', by rw [Pattern.without?, if_neg hother, hp']; rfl, inner, hfits, rfl⟩

end Labels

/-- The words that a pattern of letters stands for. -/
def spellings? : Pattern γ → Option (List (List Char))
  | empty | notFollowedBy _ | atEnd | followedBy _ => some [[]]
  | one (.exactly c) => some [[c]]
  | one _ | run .. => none
  | seq p q => do
    let firsts ← p.spellings?
    let seconds ← q.spellings?
    return firsts.flatMap fun first => seconds.map (first ++ ·)
  | alt p q => do return (← p.spellings?) ++ (← q.spellings?)
  | optional p => do return (← p.spellings?) ++ [[]]
  | group _ p => p.spellings?

/-- What fits a pattern of letters is one of its words, letter by letter. -/
theorem Fits.exists_spelling (h : p.Fits same start stop kept) {words : List (List Char)}
    (hwords : p.spellings? = some words) :
    ∃ word ∈ words, ∃ chars, start = chars ++ stop ∧
      List.Forall₂ (fun a b => same a b = true) word chars := by
  induction p generalizing start stop kept words with
  | empty | notFollowedBy | atEnd | followedBy =>
    obtain rfl := Option.some.inj hwords
    exact ⟨[], List.mem_singleton_self _, [], h.1, .nil⟩
  | one k =>
    obtain ⟨⟨c, hc, rfl⟩, -⟩ := h
    cases k with
    | exactly letter =>
      obtain rfl := Option.some.inj hwords
      exact ⟨[letter], List.mem_singleton_self _, [c], rfl, .cons hc .nil⟩
    | _ => exact absurd hwords nofun
  | run => exact absurd hwords nofun
  | seq p q ihp ihq =>
    obtain ⟨middle, before, after, hp, hq, rfl⟩ := h
    obtain ⟨firsts, hfirsts, hwords⟩ := Option.bind_eq_some_iff.1 hwords
    obtain ⟨seconds, hseconds, hwords⟩ := Option.bind_eq_some_iff.1 hwords
    obtain rfl := Option.some.inj hwords
    obtain ⟨first, hfirst, chars, rfl, hsame⟩ := ihp hp hfirsts
    obtain ⟨second, hsecond, chars', rfl, hsame'⟩ := ihq hq hseconds
    exact ⟨first ++ second,
      List.mem_flatMap.2 ⟨first, hfirst, List.mem_map.2 ⟨second, hsecond, rfl⟩⟩,
      chars ++ chars', (List.append_assoc ..).symm, List.rel_append hsame hsame'⟩
  | alt p q ihp ihq =>
    obtain ⟨firsts, hfirsts, hwords⟩ := Option.bind_eq_some_iff.1 hwords
    obtain ⟨seconds, hseconds, hwords⟩ := Option.bind_eq_some_iff.1 hwords
    obtain rfl := Option.some.inj hwords
    rcases h with h | h
    · obtain ⟨word, hword, hfound⟩ := ihp h hfirsts
      exact ⟨word, List.mem_append_left _ hword, hfound⟩
    · obtain ⟨word, hword, hfound⟩ := ihq h hseconds
      exact ⟨word, List.mem_append_right _ hword, hfound⟩
  | optional p ih =>
    obtain ⟨firsts, hfirsts, hwords⟩ := Option.bind_eq_some_iff.1 hwords
    obtain rfl := Option.some.inj hwords
    rcases h with h | ⟨rfl, -⟩
    · obtain ⟨word, hword, hfound⟩ := ih h hfirsts
      exact ⟨word, List.mem_append_left _ hword, hfound⟩
    · exact ⟨[], List.mem_append_right _ (List.mem_singleton_self _), [], rfl, .nil⟩
  | group label p ih =>
    obtain ⟨inner, hp, -⟩ := h
    exact ih hp hwords

end Pattern

end TimePhrase
