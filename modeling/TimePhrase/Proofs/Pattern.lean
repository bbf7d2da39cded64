import TimePhrase.Pattern

/-!
# The ways to go on with a match

What the simple forms of pattern find. A run takes in accepted characters, a single class takes in
one, and a look ahead leaves the text where it was.
-/

namespace TimePhrase

/-- Where no more characters are asked for, a run may end. -/
theorem exists_of_mem_runs_end {accepts : Char → Bool} {least : Nat} {found : List (List Char)}
    {text rest : List Char} (h : rest ∈ if least = 0 then text :: found else found) :
    rest ∈ found ∨
      ∃ chars, text = chars ++ rest ∧ (∀ c ∈ chars, accepts c = true) ∧ least ≤ chars.length := by
  split at h
  · rename_i hleast
    rcases List.mem_cons.1 h with rfl | h
    · exact .inr ⟨[], rfl, nofun, Nat.le_of_eq hleast⟩
    · exact .inl h
  · exact .inl h

/-- A run of accepted characters, of which there are as many as are asked for. -/
theorem exists_of_mem_runs {accepts : Char → Bool} {least : Nat} {most : Option Nat}
    {found : List (List Char)} {text rest : List Char}
    (h : rest ∈ runs accepts least most found text) : rest ∈ found ∨
      ∃ chars, text = chars ++ rest ∧ (∀ c ∈ chars, accepts c = true) ∧ least ≤ chars.length := by
  induction text generalizing least most found with
  | nil =>
    rw [runs] at h
    exact exists_of_mem_runs_end h
  | cons c cs ih =>
    rw [runs] at h
    split at h
    · rename_i haccepts
      rcases ih h with h | ⟨chars, rfl, hchars, hlength⟩
      · exact exists_of_mem_runs_end h
      · have hc : accepts c = true := by simp_all
        refine .inr ⟨c :: chars, rfl, List.forall_mem_cons.2 ⟨hc, hchars⟩, ?_⟩
        rw [List.length_cons]
        omega
    · exact exists_of_mem_runs_end h

namespace Pattern

variable {γ : Type} {same : Char → Char → Bool} {p : Pattern γ} {m found : Match γ}

theorem mem_matches?_one {k : CharClass} : found ∈ (one k).matches? same m ↔
    ∃ c rest, m.rest = c :: rest ∧ k.accepts same c = true ∧ found = { m with rest } := by
  constructor
  · intro h
    rw [matches?] at h
    split at h
    · rename_i c rest hrest
      split at h
      · rename_i hc
        exact ⟨c, rest, hrest, hc, List.mem_singleton.1 h⟩
      · exact absurd h List.not_mem_nil
    · exact absurd h List.not_mem_nil
  · rintro ⟨c, rest, hrest, hc, rfl⟩
    simp [matches?, hrest, hc]

theorem exists_of_mem_matches?_run {k : CharClass} {least : Nat} {most : Option Nat}
    (h : found ∈ (run k least most).matches? same m) :
    ∃ chars rest, m.rest = chars ++ rest ∧ (∀ c ∈ chars, k.accepts same c = true) ∧
      least ≤ chars.length ∧ found = { m with rest } := by
  obtain ⟨rest, hrest, rfl⟩ := List.mem_map.1 h
  obtain ⟨chars, htext, hchars, hlength⟩ :=
    (exists_of_mem_runs hrest).resolve_left List.not_mem_nil
  exact ⟨chars, rest, htext, hchars, hlength, rfl⟩

/-- A look ahead keeps what the preferred match keeps and takes nothing in. -/
theorem mem_matches?_followedBy : found ∈ (followedBy p).matches? same m ↔
    ∃ first ∈ (p.matches? same m).head?, found = { first with rest := m.rest } := by
  rw [matches?]
  cases p.matches? same m <;> simp

theorem mem_matches?_notFollowedBy : found ∈ (notFollowedBy p).matches? same m ↔
    p.matches? same m = [] ∧ found = m := by
  rw [matches?]
  cases p.matches? same m <;> simp

theorem mem_matches?_atEnd : found ∈ (atEnd : Pattern γ).matches? same m ↔
    (m.rest = [] ∨ m.rest = ['\n']) ∧ found = m := by
  rw [matches?]
  split <;> simp_all

end Pattern

end TimePhrase
