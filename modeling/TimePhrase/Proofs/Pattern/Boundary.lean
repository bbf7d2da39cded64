import TimePhrase.Proofs.Pattern
import TimePhrase.Proofs.Pattern.Lead
import TimePhrase.Proofs.Text.Canonical

/-!
# Where matches end

A number is read whole if no match ends between two digits. Whether one can is read off the pattern:
each piece of it says what is known of the place behind it from what is known of the place before.
Digits may be followed by more of them, unless the pattern goes on with something else or asks for
it.
-/

namespace TimePhrase

namespace Text

theorem isDigit_of_isBlank {c : Char} (h : isBlank c = true) : isDigit c = false := by
  by_contra hdigit
  have hblank := isBlank_of_isDigit (by simpa using hdigit)
  rw [h] at hblank
  cases hblank

theorem isDigit_of_sameLetter {c d : Char} (h : sameLetter c d = true) : isDigit d = isDigit c := by
  rw [← isDigit_foldLetter d, ← isDigit_foldLetter c, eq_of_beq h]

/-- The pieces of a text meet in the middle of a number. -/
def cutsNumber (before behind : List Char) : Bool :=
  before.getLast?.any isDigit && behind.head?.any isDigit

theorem cutsNumber_append_of_last {before taken behind : List Char} {c : Char}
    (hlast : taken.getLast? = some c) (hc : isDigit c = false) :
    cutsNumber (before ++ taken) behind = false := by
  simp [cutsNumber, List.getLast?_append, hlast, hc]

theorem cutsNumber_nil {behind : List Char} : cutsNumber [] behind = false := rfl

theorem cutsNumber_of_isDigit {before first second after : List Char} (hfirst : first ≠ [])
    (hsecond : second ≠ []) (hdigits : ∀ c ∈ first ++ second, isDigit c = true) :
    cutsNumber (before ++ first) (second ++ after) = true := by
  obtain ⟨start, c, rfl⟩ := (List.eq_nil_or_concat' first).resolve_left hfirst
  obtain ⟨d, tail, rfl⟩ := List.exists_cons_of_ne_nil hsecond
  have hc := hdigits c (by simp)
  have hd := hdigits d (by simp)
  simp [cutsNumber, hc, hd]

/-- Digits that stand side by side are all before a place or all behind it, unless it is in the
middle of a number. -/
theorem run_before_or_behind {taken rest before run after : List Char}
    (hwhole : cutsNumber taken rest = false) (htext : taken ++ rest = before ++ run ++ after)
    (hdigits : ∀ c ∈ run, isDigit c = true) :
    (∃ right, taken = before ++ run ++ right ∧ after = right ++ rest) ∨
      ∃ between, before = taken ++ between ∧ rest = between ++ run ++ after := by
  rw [List.append_assoc] at htext
  obtain ⟨between, hbefore, hrest⟩ | ⟨first, htaken, hrun⟩ := List.append_eq_append_iff.1 htext
  · exact .inr ⟨between, hbefore, by rw [hrest, List.append_assoc]⟩
  obtain ⟨right, hfirst, hafter⟩ | ⟨second, hsplit, hrest⟩ := List.append_eq_append_iff.1 hrun
  · exact .inl ⟨right, by rw [htaken, hfirst, List.append_assoc], hafter⟩
  -- the place is in the run, so it is at one of its ends
  by_cases hsecond : second = []
  · subst hsecond
    exact .inl ⟨[], by simp [htaken, hsplit], by simp [hrest]⟩
  · by_cases hnone : first = []
    · subst hnone
      exact .inr ⟨[], by simp [htaken], by simp [hsplit, hrest]⟩
    · rw [htaken, hrest, cutsNumber_of_isDigit hnone hsecond (hsplit ▸ hdigits)] at hwhole
      cases hwhole

end Text

open Text (cutsNumber isDigit sameLetter)

/-- No digit belongs to the class. -/
def CharClass.hasNoDigit : CharClass → Bool
  | exactly c => !isDigit c
  | blank => true
  | digit | word | any => false

theorem CharClass.isDigit_of_accepts {k : CharClass} (hk : k.hasNoDigit = true) {c : Char}
    (hc : k.accepts sameLetter c = true) : isDigit c = false := by
  cases k with
  | exactly letter =>
    rw [Text.isDigit_of_sameLetter hc]
    simpa [hasNoDigit] using hk
  | blank => exact Text.isDigit_of_isBlank hc
  | _ => cases hk

namespace Pattern

variable {γ : Type} {p : Pattern γ}

def isOneDigit : Pattern γ → Bool
  | one .digit => true
  | _ => false

/-- No match of the pattern ends in the middle of a number. If `whole`, this is known of the place
where the match begins. -/
def keepsNumbers : Pattern γ → Bool → Bool
  | empty, whole => whole
  | one k, _ => k.hasNoDigit
  | run k least _, whole => k.hasNoDigit && (whole || 0 < least)
  | seq p q, whole => q.keepsNumbers (p.keepsNumbers whole)
  | alt p q, whole => p.keepsNumbers whole && q.keepsNumbers whole
  | optional p, whole => p.keepsNumbers whole && whole
  | followedBy _, whole => whole
  | notFollowedBy p, whole => whole || p.isOneDigit
  | atEnd, _ => true
  | group _ p, whole => p.keepsNumbers whole

theorem head?_of_isOneDigit {m : Match γ} (hp : p.isOneDigit = true)
    (h : p.matches? sameLetter m = []) : m.rest.head?.any isDigit = false := by
  cases p with
  | one k =>
    cases k with
    | digit =>
      cases hrest : m.rest with
      | nil => rfl
      | cons c rest =>
        rw [matches?, hrest] at h
        by_contra hc
        simp only [List.head?_cons, Option.any_some, Bool.not_eq_false] at hc
        simp [CharClass.accepts, hc] at h
    | _ => cases hp
  | _ => cases hp

/-- A run that takes in nothing ends where it begins, and it may do so only if nothing is asked
for. -/
theorem cutsNumber_of_run {k : CharClass} {least : Nat} {most : Option Nat} {whole : Bool}
    {before chars rest : List Char}
    (hkeeps : (run k least most : Pattern γ).keepsNumbers whole = true)
    (hchars : ∀ c ∈ chars, k.accepts sameLetter c = true) (hlength : least ≤ chars.length)
    (hwhole : whole = true → cutsNumber before (chars ++ rest) = false) :
    cutsNumber (before ++ chars) rest = false := by
  obtain ⟨hclass, hplace⟩ := (Bool.and_eq_true _ _).mp hkeeps
  cases hlast : chars.getLast? with
  | some c =>
    have hc := hchars c (List.mem_of_getLast? hlast)
    exact Text.cutsNumber_append_of_last hlast (CharClass.isDigit_of_accepts hclass hc)
  | none =>
    obtain rfl := List.getLast?_eq_none_iff.1 hlast
    have hstart : whole = true := by
      have hnone : ¬ 0 < least := Nat.not_lt.2 hlength
      simpa [hnone] using hplace
    rw [List.append_nil]
    exact hwhole hstart

/-- A match takes in a piece of the text, and where the pattern keeps numbers whole, it does not end
in the middle of one. -/
theorem exists_taken_of_mem_matches? {m found : Match γ} {before : List Char} {whole : Bool}
    (h : found ∈ p.matches? sameLetter m)
    (hwhole : whole = true → cutsNumber before m.rest = false) :
    ∃ taken, m.rest = taken ++ found.rest ∧
      (p.keepsNumbers whole = true → cutsNumber (before ++ taken) found.rest = false) := by
  have hstay {m : Match γ} {before : List Char} {whole : Bool}
      (hwhole : whole = true → cutsNumber before m.rest = false) :
      ∃ taken, m.rest = taken ++ m.rest ∧
        (whole = true → cutsNumber (before ++ taken) m.rest = false) :=
    ⟨[], rfl, by simpa using hwhole⟩
  induction p generalizing m found before whole with
  | empty =>
    obtain rfl := List.mem_singleton.1 h
    exact hstay hwhole
  | one k =>
    obtain ⟨c, rest, hrest, hc, rfl⟩ := mem_matches?_one.1 h
    refine ⟨[c], hrest, fun hkeeps => ?_⟩
    exact Text.cutsNumber_append_of_last rfl (CharClass.isDigit_of_accepts hkeeps hc)
  | run k least most =>
    obtain ⟨chars, rest, htext, hchars, hlength, rfl⟩ := exists_of_mem_matches?_run h
    rw [htext] at hwhole
    exact ⟨chars, htext, fun hkeeps => cutsNumber_of_run hkeeps hchars hlength hwhole⟩
  | seq p q ihp ihq =>
    obtain ⟨middle, hmiddle, hfound⟩ := List.mem_flatMap.1 h
    obtain ⟨first, hfirst, hbetween⟩ := ihp hmiddle hwhole
    obtain ⟨second, hsecond, hend⟩ := ihq hfound hbetween
    refine ⟨first ++ second, by rw [hfirst, hsecond, List.append_assoc], fun hkeeps => ?_⟩
    rw [← List.append_assoc]
    exact hend hkeeps
  | alt p q ihp ihq =>
    rcases List.mem_append.1 h with h | h
    · obtain ⟨taken, htaken, hend⟩ := ihp h hwhole
      exact ⟨taken, htaken, fun hkeeps => hend ((Bool.and_eq_true _ _).mp hkeeps).1⟩
    · obtain ⟨taken, htaken, hend⟩ := ihq h hwhole
      exact ⟨taken, htaken, fun hkeeps => hend ((Bool.and_eq_true _ _).mp hkeeps).2⟩
  | optional p ih =>
    rcases List.mem_append.1 h with h | h
    · obtain ⟨taken, htaken, hend⟩ := ih h hwhole
      exact ⟨taken, htaken, fun hkeeps => hend ((Bool.and_eq_true _ _).mp hkeeps).1⟩
    · obtain rfl := List.mem_singleton.1 h
      obtain ⟨taken, htaken, hend⟩ := hstay hwhole
      exact ⟨taken, htaken, fun hkeeps => hend ((Bool.and_eq_true _ _).mp hkeeps).2⟩
  | followedBy p ih =>
    obtain ⟨first, -, rfl⟩ := mem_matches?_followedBy.1 h
    exact hstay hwhole
  | notFollowedBy p ih =>
    obtain ⟨hnone, rfl⟩ := mem_matches?_notFollowedBy.1 h
    refine ⟨[], rfl, fun hkeeps => ?_⟩
    rw [List.append_nil]
    rcases (Bool.or_eq_true _ _).mp hkeeps with hstart | hdigit
    · exact hwhole hstart
    · rw [cutsNumber, head?_of_isOneDigit hdigit hnone, Bool.and_false]
  | atEnd =>
    obtain ⟨hrest, rfl⟩ := mem_matches?_atEnd.1 h
    refine ⟨[], rfl, fun _ => ?_⟩
    rcases hrest with hrest | hrest
    · simp [cutsNumber, hrest]
    · have hnewline : isDigit '\n' = false := by decide
      simp [cutsNumber, hrest, hnewline]
  | group label p ih =>
    obtain ⟨inner, hinner, rfl⟩ := List.mem_map.1 h
    obtain ⟨taken, htaken, hend⟩ := ih hinner hwhole
    exact ⟨taken, htaken, hend⟩

/-- The pattern takes in the blanks behind it. -/
def takesBlanks : Pattern γ → Bool
  | seq _ (run .blank 0 none) => true
  | _ => false

/-- A pattern without the blanks that it takes in behind it. -/
def unclosed : Pattern γ → Pattern γ
  | seq p (run .blank 0 none) => p
  | p => p

/-- The blanks behind a pattern are taken in as far as they reach. -/
theorem first?_of_takesBlanks {same : Char → Char → Bool} (hp : p.takesBlanks = true)
    (text : List Char) : p.first? same text =
      (p.unclosed.first? same text).map fun m =>
        { m with rest := m.rest.dropWhile Text.isBlank } := by
  unfold takesBlanks at hp
  split at hp
  · exact first?_seq_blanks _ text
  · cases hp

theorem isBlank_of_takesBlanks {same : Char → Char → Bool} {text : List Char} {m : Match γ}
    (hp : p.takesBlanks = true) (h : p.first? same text = some m) :
    ∀ c ∈ m.rest.head?, Text.isBlank c = false := by
  rw [first?_of_takesBlanks hp] at h
  obtain ⟨first, -, rfl⟩ := Option.map_eq_some_iff.1 h
  intro c hc
  have hhead := List.head?_dropWhile_not Text.isBlank first.rest
  rw [hc] at hhead
  simpa using hhead

end Pattern

end TimePhrase
