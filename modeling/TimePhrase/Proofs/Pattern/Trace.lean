import TimePhrase.Recognizer
import TimePhrase.Proofs.Text.Number

/-!
# Matching a text of which only the beginning is known

A pattern looks at a text from its start, and it never tells one decimal digit from another. So
its matches can be found without knowing the digits of the text, and without knowing the text
behind the characters that it looks at. A trace is such a match. It is computed, and its meaning
for every text with the given beginning is proved once for all patterns.
-/

namespace TimePhrase

open Text (plainDigits)

/-- What is known about a character: the character itself, or that it is a digit. -/
inductive Sign
  | char (c : Char)
  /-- The digit with the given number. -/
  | digit (i : Nat)
deriving DecidableEq

namespace Sign

/-- The character that a sign stands for. -/
def fill (digits : Nat → Char) : Sign → Char
  | char c => c
  | digit i => digits i

/-- Whether the class has the character, if that is known. -/
def accepts? (same : Char → Char → Bool) (k : CharClass) : Sign → Option Bool
  | char c => some (k.accepts same c)
  | digit _ =>
    if plainDigits.all (k.accepts same) then some true
    else if plainDigits.all (!k.accepts same ·) then some false
    else none

end Sign

/-- A match in a text of which only the beginning is known. -/
structure Trace (γ : Type) where
  rest : List Sign
  /-- The pieces kept so far, the latest first, each with what it starts and stops before. -/
  groups : List (γ × List Sign × List Sign)
deriving DecidableEq

/-- All results of a step on each item, if every one is known. -/
def flatMap? {α β : Type} (f : α → Option (List β)) : List α → Option (List β)
  | [] => some []
  | a :: rest => do return (← f a) ++ (← flatMap? f rest)

/-- What may be left behind a run, as for `runs`, if that is known. -/
def runs? (accepts? : Sign → Option Bool) (isOpen : Bool) (least : Nat) (most : Option Nat)
    (found : List (List Sign)) : List Sign → Option (List (List Sign))
  | [] => if isOpen then none else some (if least = 0 then [] :: found else found)
  | s :: rest => do
    let found := if least = 0 then (s :: rest) :: found else found
    if most = some 0 then return found
    if ← accepts? s then
      runs? accepts? isOpen (least - 1) (most.map (· - 1)) found rest
    else
      return found

namespace Pattern

variable {γ : Type}

/-- All ways to go on with a trace by a pattern, if they are known. An open text may go on
behind its known beginning. -/
def traces? (same : Char → Char → Bool) (isOpen : Bool) :
    Pattern γ → Trace γ → Option (List (Trace γ))
  | empty, t => some [t]
  | one k, t =>
    match t.rest with
    | s :: rest => do if ← s.accepts? same k then return [{ t with rest }] else return []
    | [] => if isOpen then none else some []
  | run k least most, t => do
    return (← runs? (Sign.accepts? same k) isOpen least most [] t.rest).map fun rest =>
      { t with rest }
  | seq p q, t => do flatMap? (q.traces? same isOpen) (← p.traces? same isOpen t)
  | alt p q, t => do return (← p.traces? same isOpen t) ++ (← q.traces? same isOpen t)
  | optional p, t => do return (← p.traces? same isOpen t) ++ [t]
  | followedBy p, t => do
    match ← p.traces? same isOpen t with
    | found :: _ => return [{ found with rest := t.rest }]
    | [] => return []
  | notFollowedBy p, t => do
    return if (← p.traces? same isOpen t).isEmpty then [t] else []
  | atEnd, t =>
    match t.rest with
    | [] => if isOpen then none else some [t]
    | [.char c] => if c = '\n' then if isOpen then none else some [t] else some []
    | _ => some []
  | group label p, t => do
    return (← p.traces? same isOpen t).map fun found =>
      { found with groups := (label, t.rest, found.rest) :: found.groups }

end Pattern

section Fill

variable {γ : Type} {same : Char → Char → Bool} {isOpen : Bool} {digits : Nat → Char}
  {tail : List Char}

/-- The text that begins as known. -/
def fill (digits : Nat → Char) (tail : List Char) (signs : List Sign) : List Char :=
  signs.map (Sign.fill digits) ++ tail

/-- The match that a trace stands for in a text. -/
def Trace.fill (digits : Nat → Char) (tail : List Char) (t : Trace γ) : Match γ where
  rest := TimePhrase.fill digits tail t.rest
  groups := t.groups.map fun g =>
    (g.1, ⟨TimePhrase.fill digits tail g.2.1, TimePhrase.fill digits tail g.2.2⟩)

/-- The piece kept under a label. -/
def Trace.group? [DecidableEq γ] (t : Trace γ) (label : γ) : Option (List Sign) :=
  (t.groups.find? fun g => g.1 = label).map fun g => g.2.1.take (g.2.1.length - g.2.2.length)

theorem Trace.group?_fill [DecidableEq γ] (t : Trace γ) (label : γ) :
    (t.fill digits tail).group? label = (t.group? label).map (·.map (Sign.fill digits)) := by
  simp only [Match.group?, Trace.fill, Trace.group?, List.find?_map, Option.map_map]
  congr 1
  funext g
  obtain ⟨label', start, stop⟩ := g
  have hlength : start.length + tail.length - (stop.length + tail.length) =
      start.length - stop.length := by omega
  have hnone : start.length - stop.length - start.length = 0 := by omega
  simp [Slice.chars, TimePhrase.fill, List.take_append, hlength, hnone]

theorem Sign.accepts?_eq_some {k : CharClass} {s : Sign} {accepted : Bool}
    (hdigits : ∀ i, digits i ∈ plainDigits) (h : s.accepts? same k = some accepted) :
    k.accepts same (s.fill digits) = accepted := by
  cases s with
  | char c => exact Option.some.inj h
  | digit i =>
    simp only [accepts?] at h
    split at h
    · rename_i hall
      exact Option.some.inj h ▸ List.all_eq_true.1 hall _ (hdigits i)
    · split at h
      · rename_i hall
        have hnot := List.all_eq_true.1 hall _ (hdigits i)
        rw [Bool.not_eq_true'] at hnot
        exact Option.some.inj h ▸ hnot
      · exact absurd h nofun

theorem flatMap?_eq_some {α β α' β' : Type} {f : α → Option (List β)} {g : α' → List β'}
    {fillA : α → α'} {fillB : β → β'}
    (hf : ∀ a bs, f a = some bs → g (fillA a) = bs.map fillB) {as : List α} {bs : List β}
    (h : flatMap? f as = some bs) : (as.map fillA).flatMap g = bs.map fillB := by
  induction as generalizing bs with
  | nil => exact Option.some.inj h ▸ rfl
  | cons a rest ih =>
    obtain ⟨first, hfirst, h⟩ := Option.bind_eq_some_iff.1 h
    obtain ⟨others, hothers, h⟩ := Option.bind_eq_some_iff.1 h
    rw [← Option.some.inj h, List.map_cons, List.flatMap_cons, hf a first hfirst, ih hothers,
      List.map_append]

theorem runs?_eq_some {accepts : Char → Bool} {accepts? : Sign → Option Bool} {least : Nat}
    {most : Option Nat} {found results : List (List Sign)} {signs : List Sign}
    (haccepts : ∀ s accepted, accepts? s = some accepted → accepts (s.fill digits) = accepted)
    (htail : isOpen = true ∨ tail = [])
    (h : runs? accepts? isOpen least most found signs = some results) :
    runs accepts least most (found.map (fill digits tail)) (fill digits tail signs) =
      results.map (fill digits tail) := by
  induction signs generalizing least most found with
  | nil =>
    rw [runs?] at h
    split at h
    · exact absurd h nofun
    · rename_i hclosed
      obtain rfl := htail.resolve_left hclosed
      obtain rfl := Option.some.inj h
      simp only [fill, List.map_nil, List.append_nil, runs]
      split <;> rfl
  | cons s rest ih =>
    have hfound : (if least = 0 then (s.fill digits :: fill digits tail rest) ::
        found.map (fill digits tail) else found.map (fill digits tail)) =
        (if least = 0 then (s :: rest) :: found else found).map (fill digits tail) := by
      split <;> rfl
    have htext : fill digits tail (s :: rest) = s.fill digits :: fill digits tail rest := rfl
    rw [htext, runs, hfound]
    simp only [runs?] at h
    split at h
    · rename_i hmost
      simp [← Option.some.inj h, hmost]
    · rename_i hmost
      obtain ⟨accepted, haccepted, h⟩ := Option.bind_eq_some_iff.1 h
      rw [haccepts s accepted haccepted]
      cases accepted with
      | true =>
        simp only [hmost, ne_eq, not_false_eq_true, decide_true, Bool.and_self, if_true]
        exact ih h
      | false =>
        simp only [Bool.false_and, Bool.false_eq_true, if_false]
        exact congrArg _ (Option.some.inj h)

theorem Pattern.matches?_fill_one {k : CharClass} {t : Trace γ} {found : List (Trace γ)}
    (hdigits : ∀ i, digits i ∈ plainDigits) (htail : isOpen = true ∨ tail = [])
    (h : (one k).traces? same isOpen t = some found) :
    (one k).matches? same (t.fill digits tail) = found.map (Trace.fill digits tail) := by
  obtain ⟨rest, groups⟩ := t
  simp only [traces?] at h
  split at h
  · rename_i s more
    obtain ⟨accepted, haccepted, h⟩ := Option.bind_eq_some_iff.1 h
    have haccepts := Sign.accepts?_eq_some hdigits haccepted
    simp only [matches?, Trace.fill, TimePhrase.fill, List.map_cons, List.cons_append, haccepts]
    cases accepted <;> exact Option.some.inj h ▸ rfl
  · split at h
    · exact absurd h nofun
    · rename_i hclosed
      obtain rfl := htail.resolve_left hclosed
      exact Option.some.inj h ▸ rfl

/-- Nothing is left, or the end of a line, or something else. No digit ends a line. -/
theorem Pattern.matches?_fill_atEnd {t : Trace γ} {found : List (Trace γ)}
    (hdigits : ∀ i, digits i ∈ plainDigits) (htail : isOpen = true ∨ tail = [])
    (h : atEnd.traces? same isOpen t = some found) :
    atEnd.matches? same (t.fill digits tail) = found.map (Trace.fill digits tail) := by
  obtain ⟨rest, groups⟩ := t
  have hnewline (i : Nat) : digits i ≠ '\n' := fun heq => by
    have := hdigits i
    simp [heq, plainDigits] at this
  rcases rest with _ | ⟨s, _ | ⟨s', more⟩⟩
  · simp only [traces?] at h
    split at h
    · exact absurd h nofun
    · rename_i hclosed
      obtain rfl := htail.resolve_left hclosed
      exact Option.some.inj h ▸ rfl
  · cases s with
    | char c =>
      simp only [traces?] at h
      split at h
      · rename_i hc
        split at h
        · exact absurd h nofun
        · rename_i hclosed
          obtain rfl := htail.resolve_left hclosed
          simp [← Option.some.inj h, matches?, Trace.fill, TimePhrase.fill, Sign.fill, hc]
      · rename_i hc
        simp [← Option.some.inj h, matches?, Trace.fill, TimePhrase.fill, Sign.fill, hc]
    | digit i =>
      obtain rfl : [] = found := Option.some.inj h
      simp [matches?, Trace.fill, TimePhrase.fill, Sign.fill, hnewline]
  · obtain rfl : [] = found := by cases s <;> exact Option.some.inj h
    simp [matches?, Trace.fill, TimePhrase.fill]

/-- What is traced is what is matched, whatever the digits are and however the text goes on. -/
theorem Pattern.matches?_fill {p : Pattern γ} {t : Trace γ} {found : List (Trace γ)}
    (digits : Nat → Char) (tail : List Char) (hdigits : ∀ i, digits i ∈ plainDigits)
    (htail : isOpen = true ∨ tail = [])
    (h : p.traces? same isOpen t = some found) :
    p.matches? same (t.fill digits tail) = found.map (Trace.fill digits tail) := by
  induction p generalizing t found with
  | empty => exact Option.some.inj h ▸ rfl
  | one k => exact matches?_fill_one hdigits htail h
  | run k least most =>
    obtain ⟨results, hresults, h⟩ := Option.bind_eq_some_iff.1 h
    have hruns := runs?_eq_some (fun s accepted => Sign.accepts?_eq_some hdigits) htail hresults
    rw [matches?, ← Option.some.inj h]
    change ((runs _ least most [] (TimePhrase.fill digits tail t.rest)).map _) = _
    rw [show ([] : List (List Char)) = ([] : List (List Sign)).map (TimePhrase.fill digits tail)
      from rfl, hruns, List.map_map, List.map_map]
    rfl
  | seq p q ihp ihq =>
    obtain ⟨middle, hmiddle, h⟩ := Option.bind_eq_some_iff.1 h
    rw [matches?, ihp hmiddle]
    exact flatMap?_eq_some (fun t found => ihq) h
  | alt p q ihp ihq =>
    obtain ⟨left, hleft, h⟩ := Option.bind_eq_some_iff.1 h
    obtain ⟨right, hright, h⟩ := Option.bind_eq_some_iff.1 h
    rw [matches?, ihp hleft, ihq hright, ← Option.some.inj h, List.map_append]
  | optional p ih =>
    obtain ⟨results, hresults, h⟩ := Option.bind_eq_some_iff.1 h
    rw [matches?, ih hresults, ← Option.some.inj h, List.map_append]
    rfl
  | followedBy p ih =>
    obtain ⟨results, hresults, h⟩ := Option.bind_eq_some_iff.1 h
    rw [matches?, ih hresults]
    cases results <;> exact Option.some.inj h ▸ rfl
  | notFollowedBy p ih =>
    obtain ⟨results, hresults, h⟩ := Option.bind_eq_some_iff.1 h
    rw [matches?, ih hresults, ← Option.some.inj h]
    cases results <;> rfl
  | atEnd => exact matches?_fill_atEnd hdigits htail h
  | group label p ih =>
    obtain ⟨results, hresults, h⟩ := Option.bind_eq_some_iff.1 h
    rw [matches?, ih hresults, ← Option.some.inj h, List.map_map, List.map_map]
    rfl

end Fill

end TimePhrase
