import TimePhrase.Proofs.Grammar
import TimePhrase.Proofs.Reading.Chain
import TimePhrase.Proofs.Text.Ordinary

/-!
# Texts that can be read

A recognizer fails where a word turns out to be unknown or a number too long. The patterns take in
no word that is not in the vocabulary, up to letter case, so that neither happens in an ordinary
text.
-/

namespace TimePhrase.Recognizer

open Text (sameLetter Ordinary specialLetters)

variable {α : Type} {text rest : List Char} {g : Grammar} {label : Field} {p q : Pattern Field}
  {m : Match Field}

section Words

theorem lookUp_of_means {meanings : List (String × α)} (hmeans : means meanings q = true)
    {chars : List Char} {kept : List (Field × Slice)}
    (hfits : q.Fits sameLetter (chars ++ rest) rest kept)
    (hchars : ∀ c ∈ chars, c ∉ specialLetters) :
    ∃ meaning, lookUp meanings chars = .ok meaning := by
  unfold means at hmeans
  split at hmeans
  · rename_i words hwords
    obtain ⟨word, hword, chars', heq, hsame⟩ := hfits.exists_spelling hwords
    obtain rfl := List.append_cancel_right heq
    obtain ⟨hletters, hok⟩ := Bool.and_eq_true_iff.1 (List.all_eq_true.1 hmeans word hword)
    have hplain : ∀ c ∈ word, c ∉ specialLetters := by simpa using hletters
    have hlower : lookUp meanings chars = lookUp meanings word := by
      rw [lookUp, lookUp, Text.lower_eq_of_forall₂ hsame hplain hchars]
    rw [hlower]
    cases hlook : lookUp meanings word with
    | ok meaning => exact ⟨meaning, rfl⟩
    | error failure =>
      rw [hlook] at hok
      cases hok
  · cases hmeans

/-- In an ordinary text the word that is kept under a label is known. -/
theorem lookUp_of_names {meanings : List (String × α)} (hnames : names meanings label p = true)
    (hfits : p.Fits sameLetter text rest m.groups) (htext : Ordinary text) :
    ∃ meaning, lookUp meanings ((m.group? label).getD []) = .ok meaning := by
  obtain ⟨halways, hmeans⟩ := Bool.and_eq_true_iff.1 hnames
  cases hgroup : m.group? label with
  | none =>
    obtain ⟨s, hs⟩ := hfits.exists_mem_kept halways
    exact absurd rfl (Match.group?_eq_none_iff.1 hgroup _ hs)
  | some chars =>
    obtain ⟨q, hq, after, kept, hsuffix, hcapture⟩ := hfits.exists_capture hgroup
    refine lookUp_of_means (List.all_eq_true.1 hmeans q hq) hcapture fun c hc => ?_
    exact htext.letters c (hsuffix.subset (List.mem_append_left _ hc))

end Words

section Numbers

theorem captures_number (locale : Locale) :
    (∀ looped, (Grammar.spanItem locale looped).captures .count = [.run .digit 1 none]) ∧
      (Grammar.yearOf locale).captures .year =
        [.seq (.optional (.one (.exactly '-'))) (.run .digit 4 none)] := by
  cases locale <;> exact ⟨fun looped => by cases looped <;> rfl, rfl⟩

theorem exists_readNumber {digits : List Char} (h : digits.length ≤ Text.maxDigits) :
    ∃ n, readNumber digits = .ok n :=
  ⟨_, if_neg (Nat.not_lt_of_le h)⟩

/-- In an ordinary text the number of a count is not too long. -/
theorem exists_readNumber_count {locale : Locale} {looped : Bool} {digits : List Char}
    (hfits : (Grammar.spanItem locale looped).Fits sameLetter text rest m.groups)
    (htext : Ordinary text) (hdigits : m.group? .count = some digits) :
    ∃ n, readNumber digits = .ok n := by
  obtain ⟨q, hq, after, kept, hsuffix, hcapture⟩ := hfits.exists_capture hdigits
  rw [(captures_number locale).1, List.mem_singleton] at hq
  subst hq
  obtain ⟨⟨chars, hchars, heq⟩, -⟩ := hcapture
  obtain rfl := List.append_cancel_right heq
  exact exists_readNumber
    (htext.numbers digits ((List.prefix_append ..).isInfix.trans hsuffix.isInfix) hchars)

/-- In an ordinary text the number of a year is not too long. -/
theorem exists_readNumber_year {locale : Locale}
    (hfits : (Grammar.yearOf locale).Fits sameLetter text rest m.groups) (htext : Ordinary text) :
    ∃ n, readNumber (((m.group? .year).getD []).filter (· ≠ '-')) = .ok n := by
  cases hyear : m.group? .year with
  | none => exact exists_readNumber (Nat.zero_le _)
  | some chars =>
    obtain ⟨q, hq, after, kept, hsuffix, hcapture⟩ := hfits.exists_capture hyear
    rw [(captures_number locale).2, List.mem_singleton] at hq
    subst hq
    obtain ⟨_, _, _, hfirst, ⟨⟨digits, hdigits, rfl⟩, -⟩, -⟩ := hcapture
    obtain ⟨sign, rfl, hsign⟩ : ∃ sign, chars = sign ++ digits ∧ ∀ c ∈ sign, c = '-' := by
      rcases hfirst with ⟨⟨c, hc, heq⟩, -⟩ | ⟨heq, -⟩
      · refine ⟨[c], List.append_cancel_right heq, fun d hd => ?_⟩
        have hminus := Text.eq_of_sameLetter hc rfl (by decide) (by decide)
        exact List.mem_singleton.1 hd ▸ hminus.resolve_right fun h => absurd h.1 (by decide)
      · exact ⟨[], List.append_cancel_right heq, nofun⟩
    have hnone : sign.filter (· ≠ '-') = [] := by simpa using hsign
    rw [Option.getD_some, List.filter_append, hnone, List.nil_append]
    have hwithin : digits <:+: text := by
      rw [List.append_assoc] at hsuffix
      exact ((List.prefix_append ..).isInfix.trans (List.suffix_append sign _).isInfix).trans
        hsuffix.isInfix
    exact exists_readNumber
      ((List.length_filter_le ..).trans (htext.numbers digits hwithin hdigits))

end Numbers

section Recognizers

theorem exists_firstRead {β : Type} {read : α → Match Field → Except Failure (Option β)}
    {patterns : List (Pattern Field × α)}
    (hread : ∀ pattern ∈ patterns, ∀ m, begins pattern.1 text = some m →
      ∃ value, read pattern.2 m = .ok value) :
    ∃ answer, firstRead read text patterns = .ok answer := by
  induction patterns with
  | nil => exact ⟨none, rfl⟩
  | cons pattern others ih =>
    obtain ⟨p, info⟩ := pattern
    obtain ⟨hfirst, hothers⟩ := List.forall_mem_cons.1 hread
    rw [firstRead]
    cases hbegins : begins p text with
    | none => exact ih hothers
    | some m =>
      obtain ⟨value, hvalue⟩ := hfirst m hbegins
      simp only [hvalue, ok_bind]
      cases value with
      | none => exact ih hothers
      | some value => exact ⟨_, rfl⟩

theorem exists_firstPart {read : α → Match Field → Except Failure (Option Part)}
    {patterns : List (Pattern Field × α)}
    (hread : ∀ pattern ∈ patterns, ∀ m, begins pattern.1 text = some m →
      ∃ value, read pattern.2 m = .ok value) :
    ∃ answer, firstPart patterns text read = .ok answer := by
  obtain ⟨answer, hanswer⟩ := exists_firstRead hread
  exact ⟨_, by rw [firstPart, hanswer]; rfl⟩

theorem exists_counts {locale : Locale} {looped : Bool} (htext : Ordinary text)
    (found : List (TimeUnit × Int)) (fuel : Nat) :
    ∃ answer, counts locale.grammar (Grammar.spanItem locale looped) found fuel text =
      .ok answer := by
  induction fuel generalizing text found with
  | zero => exact ⟨_, rfl⟩
  | succ fuel ih =>
    rw [counts]
    cases hbegins : begins (Grammar.spanItem locale looped) text with
    | none => exact ⟨_, rfl⟩
    | some m =>
      have hfits := fits_of_begins hbegins
      have hrest := fun found => ih (htext.within (rest_suffix_of_begins hbegins).isInfix) found
      obtain ⟨unit, hunit⟩ := lookUp_of_names ((wellMade locale).units looped) hfits htext
      simp only [hunit, ok_bind]
      split
      · exact ⟨_, rfl⟩
      · cases hcount : m.group? .count with
        | none => exact hrest _
        | some digits =>
          obtain ⟨n, hn⟩ := exists_readNumber_count hfits htext hcount
          simp only [hn, ok_bind]
          exact hrest _

theorem exists_year (locale : Locale) (htext : Ordinary text) :
    ∃ answer, year locale.grammar text = .ok answer := by
  refine exists_firstPart fun pattern hpattern m hm => ?_
  obtain rfl := List.mem_singleton.1 hpattern
  have hyear : locale.grammar.year = Grammar.yearOf locale := by cases locale <;> rfl
  have hfits := fits_of_begins hm
  rw [hyear] at hfits
  obtain ⟨n, hn⟩ := exists_readNumber_year hfits htext
  simp only [hn, ok_bind]
  exact ⟨_, rfl⟩

/-- Where the minutes are no number they are a word of the pattern, which has a meaning. -/
theorem exists_invertedTime (locale : Locale) (htext : Ordinary text) :
    ∃ answer, invertedTime locale.grammar text = .ok answer := by
  refine exists_firstPart fun pattern hpattern m hm => ?_
  have hwords := (wellMade locale).minutes pattern hpattern
  cases hourOf locale.grammar m with
  | none => exact ⟨none, rfl⟩
  | some hour =>
    dsimp only
    split
    · exact ⟨none, rfl⟩
    · cases hminute : shortNumber? m .minute with
      | some minutes => exact ⟨_, rfl⟩
      | none =>
        have hnone := Match.group?_eq_none_iff.1 (Option.map_eq_none_iff.1 hminute)
        obtain ⟨q, hq, hfits⟩ := (fits_of_begins hm).without? hnone
        rw [hq] at hwords
        obtain ⟨minutes, hlook⟩ := lookUp_of_names hwords hfits htext
        simp only [hlook, ok_bind]
        exact ⟨_, rfl⟩

theorem exists_spanAfter (locale : Locale) (opening : Pattern Field) (looped : Bool)
    (htext : Ordinary text) :
    ∃ answer, spanAfter locale.grammar opening (Grammar.spanItem locale looped) looped text =
      .ok answer := by
  rw [spanAfter]
  cases hbegins : begins opening text with
  | none => exact ⟨none, rfl⟩
  | some m =>
    have hrest := htext.within (rest_suffix_of_begins hbegins).isInfix
    obtain ⟨answer, hanswer⟩ := @exists_counts _ locale looped hrest [] (TimeUnit.all.length + 1)
    simp only [hanswer, ok_bind]
    exact ⟨_, rfl⟩

theorem exists_span (locale : Locale) (htext : Ordinary text) :
    ∃ answer, span locale.grammar text = .ok answer := by
  obtain ⟨opening, hloop⟩ : ∃ opening, locale.grammar.loopSpan =
      (opening, Grammar.spanItem locale true) := by cases locale <;> exact ⟨_, rfl⟩
  have honce : locale.grammar.onceSpan.2 = Grammar.spanItem locale false := by
    cases locale <;> rfl
  have hlast := exists_spanAfter locale locale.grammar.onceSpan.1 false htext
  simp only [span, hloop, honce]
  cases opening with
  | none => exact hlast
  | some opening =>
    obtain ⟨answer, hanswer⟩ := exists_spanAfter locale opening true htext
    simp only [hanswer, ok_bind]
    cases answer with
    | none => exact hlast
    | some found => exact ⟨_, rfl⟩

/-- A recognizer does not fail on an ordinary text. -/
theorem exists_ofKind (locale : Locale) (kind : Kind) (htext : Ordinary text) :
    ∃ answer, ofKind kind locale.grammar text = .ok answer := by
  cases kind with
  | time | date | monthDay | keyword | limiter =>
    exact exists_firstPart fun _ _ m _ => ⟨_, rfl⟩
  | weekday =>
    refine exists_firstPart fun pattern hpattern m hm => ?_
    obtain ⟨n, hn⟩ := lookUp_of_names ((wellMade locale).weekdays pattern hpattern) (fits_of_begins hm) htext
    exact ⟨_, by rw [nameOf, hn]; rfl⟩
  | month =>
    refine exists_firstPart fun pattern hpattern m hm => ?_
    obtain ⟨n, hn⟩ := lookUp_of_names ((wellMade locale).months pattern hpattern) (fits_of_begins hm) htext
    exact ⟨_, by rw [nameOf, hn]; rfl⟩
  | year => exact exists_year locale htext
  | invertedTime => exact exists_invertedTime locale htext
  | span => exact exists_span locale htext

end Recognizers

end TimePhrase.Recognizer

namespace TimePhrase

/-- An ordinary text can be read. -/
theorem readable_of_ordinary (locale : Locale) {text : List Char} (h : Text.Ordinary text) :
    Readable locale.grammar text :=
  fun _ hrest kind => Recognizer.exists_ofKind locale kind (h.within hrest.isInfix)

end TimePhrase
