import TimePhrase.Proofs.Pattern.Trace

/-!
# The preferred match

Of all the ways in which a text begins with a pattern only the preferred one counts. It is put
together from the preferred matches of the parts of the pattern, and it does not depend on what
has been kept before.
-/

namespace TimePhrase

/-- The run that takes in everything up to a character that does not belong to it is preferred. -/
theorem head?_runs {accepts : Char → Bool} {least : Nat} (found : List (List Char))
    {chars rest : List Char} (hchars : ∀ c ∈ chars, accepts c = true)
    (hrest : ∀ c ∈ rest.head?, accepts c = false) (hleast : least ≤ chars.length) :
    (runs accepts least none found (chars ++ rest)).head? = some rest := by
  induction chars generalizing least found with
  | nil =>
    obtain rfl : least = 0 := by simpa using hleast
    cases rest with
    | nil => rfl
    | cons c rest =>
      have hc : accepts c = false := hrest c rfl
      simp [runs, hc]
  | cons c chars ih =>
    have hc := hchars c (List.mem_cons_self ..)
    rw [List.cons_append, runs]
    simp only [hc, Bool.true_and, ne_eq, reduceCtorEq, not_false_eq_true, decide_true, if_true,
      Option.map_none]
    exact ih _ (fun d hd => hchars d (List.mem_cons_of_mem _ hd)) (by
      rw [List.length_cons] at hleast
      omega)

namespace Pattern

variable {γ : Type} {same : Char → Char → Bool} {p q : Pattern γ} {m m₁ m₂ : Match γ}

/-- The preferred way to go on with a match. -/
def Leads (same : Char → Char → Bool) (p : Pattern γ) (m m' : Match γ) : Prop :=
  (p.matches? same m).head? = some m'

theorem Leads.seq (hp : p.Leads same m m₁) (hq : q.Leads same m₁ m₂) :
    (seq p q).Leads same m m₂ := by
  obtain ⟨others, hothers⟩ := List.head?_eq_some_iff.1 hp
  obtain ⟨more, hmore⟩ := List.head?_eq_some_iff.1 hq
  simp [Leads, matches?, hothers, hmore]

theorem leads_seq_assoc {r : Pattern γ} :
    (seq (seq p q) r).Leads same m m₁ ↔ (seq p (seq q r)).Leads same m m₁ := by
  simp only [Leads, matches?, List.flatMap_assoc]

theorem leads_empty (m : Match γ) : empty.Leads same m m := rfl

theorem Leads.optional (hp : p.Leads same m m₁) : (optional p).Leads same m m₁ := by
  obtain ⟨others, hothers⟩ := List.head?_eq_some_iff.1 hp
  simp [Leads, matches?, hothers]

/-- What is optional and not there is left out. -/
theorem leads_optional_of_eq_nil (hp : p.matches? same m = []) :
    (optional p).Leads same m m := by
  simp [Leads, matches?, hp]

theorem Leads.group (label : γ) (hp : p.Leads same m m₁) :
    (group label p).Leads same m
      { m₁ with groups := (label, ⟨m.rest, m₁.rest⟩) :: m₁.groups } := by
  obtain ⟨others, hothers⟩ := List.head?_eq_some_iff.1 hp
  simp [Leads, matches?, hothers]

theorem Leads.followedBy (hp : p.Leads same m m₁) :
    (followedBy p).Leads same m { m₁ with rest := m.rest } := by
  obtain ⟨others, hothers⟩ := List.head?_eq_some_iff.1 hp
  simp [Leads, matches?, hothers]

theorem leads_run {k : CharClass} {least : Nat} (chars : List Char) {rest : List Char}
    {groups : List (γ × Slice)} (hchars : ∀ c ∈ chars, k.accepts same c = true)
    (hrest : ∀ c ∈ rest.head?, k.accepts same c = false) (hleast : least ≤ chars.length) :
    (run k least none).Leads same ⟨chars ++ rest, groups⟩ ⟨rest, groups⟩ := by
  obtain ⟨others, hothers⟩ := List.head?_eq_some_iff.1 (head?_runs [] hchars hrest hleast)
  simp [Leads, matches?, hothers]

theorem leads_blanks (m : Match γ) :
    (blanks : Pattern γ).Leads same m { m with rest := m.rest.dropWhile Text.isBlank } := by
  have hstop : ∀ c ∈ (m.rest.dropWhile Text.isBlank).head?, Text.isBlank c = false := by
    intro c hc
    have hhead := List.head?_dropWhile_not Text.isBlank m.rest
    rw [hc] at hhead
    simpa using hhead
  have hrun : (blanks : Pattern γ).Leads same
      ⟨m.rest.takeWhile Text.isBlank ++ m.rest.dropWhile Text.isBlank, m.groups⟩
      ⟨m.rest.dropWhile Text.isBlank, m.groups⟩ :=
    leads_run _ (List.all_eq_true.1 List.all_takeWhile) hstop (Nat.zero_le _)
  rwa [List.takeWhile_append_dropWhile] at hrun

theorem first?_seq_blanks (p : Pattern γ) (text : List Char) : (seq p blanks).first? same text =
    (p.first? same text).map fun m => { m with rest := m.rest.dropWhile Text.isBlank } := by
  cases hfirst : p.first? same text with
  | none => simp [first?, matches?, List.head?_eq_none_iff.1 hfirst]
  | some m => exact Leads.seq hfirst (leads_blanks m)

theorem leads_literal (text : List Char) {rest : List Char} {groups : List (γ × Slice)}
    (hsame : ∀ c ∈ text, same c c = true) :
    (literal text).Leads same ⟨text ++ rest, groups⟩ ⟨rest, groups⟩ := by
  induction text with
  | nil => exact leads_empty _
  | cons c text ih =>
    have hfirst : (one (.exactly c) : Pattern γ).Leads same ⟨c :: (text ++ rest), groups⟩
        ⟨text ++ rest, groups⟩ := by
      simp [Leads, matches?, CharClass.accepts, hsame]
    exact hfirst.seq (ih fun d hd => hsame d (List.mem_cons_of_mem c hd))

/-- What has been kept before plays no part in a match and stays kept. -/
theorem matches?_append_groups (p : Pattern γ) (rest : List Char)
    (groups before : List (γ × Slice)) :
    p.matches? same ⟨rest, groups ++ before⟩ =
      (p.matches? same ⟨rest, groups⟩).map fun m => { m with groups := m.groups ++ before } := by
  induction p generalizing rest groups with
  | empty => rfl
  | one k =>
    rw [matches?, matches?]
    cases rest with
    | nil => rfl
    | cons c rest => dsimp only; split <;> rfl
  | run k least most => simp [matches?, Function.comp_def]
  | seq p q ihp ihq =>
    simp only [matches?, ihp, List.flatMap_map, List.map_flatMap]
    congr 1
    funext m
    exact ihq m.rest m.groups
  | alt p q ihp ihq => simp only [matches?, ihp, ihq, List.map_append]
  | optional p ih => simp only [matches?, ih, List.map_append, List.map_cons, List.map_nil]
  | followedBy p ih =>
    simp only [matches?, ih]
    cases p.matches? same ⟨rest, groups⟩ <;> rfl
  | notFollowedBy p ih =>
    simp only [matches?, ih, List.isEmpty_map]
    split <;> rfl
  | atEnd =>
    simp only [matches?]
    split <;> rfl
  | group label p ih => simp only [matches?, ih, List.map_map, Function.comp_def, List.cons_append]

theorem Leads.append_groups {rest rest' : List Char} {groups groups' : List (γ × Slice)}
    (h : p.Leads same ⟨rest, groups⟩ ⟨rest', groups'⟩) (before : List (γ × Slice)) :
    p.Leads same ⟨rest, groups ++ before⟩ ⟨rest', groups' ++ before⟩ := by
  obtain ⟨others, hothers⟩ := List.head?_eq_some_iff.1 h
  simp [Leads, matches?_append_groups, hothers]

theorem matches?_eq_nil_of_groups {rest : List Char} (h : p.matches? same ⟨rest, []⟩ = [])
    (before : List (γ × Slice)) : p.matches? same ⟨rest, before⟩ = [] := by
  have happend : p.matches? same ⟨rest, [] ++ before⟩ = _ := matches?_append_groups p rest [] before
  rwa [h, List.nil_append] at happend

end Pattern

end TimePhrase
