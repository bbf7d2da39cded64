import TimePhrase.Proofs.Description.Span
import TimePhrase.Proofs.Text.Letter

/-!
# What stands before "day after tomorrow"

A repeating span takes in a unit even without a number, and the name of the day after tomorrow
begins with one. It can only stand behind a repeating span that counts days already.
-/

namespace TimePhrase.Recognizer

open Text (sameLetter)

variable {text rest : List Char} {g : Grammar}

/-- Counting ends where nothing more is counted, or where a unit would come up again. -/
theorem stop_of_counts {item : Pattern Field} {fuel : Nat} {found result : List (TimeUnit × Int)}
    (hfound : Distinct found) (hfuel : TimeUnit.all.length < fuel + found.length)
    (h : counts g item found fuel text = .ok (result, rest)) :
    begins item rest = none ∨ ∃ m unit, begins item rest = some m ∧
      lookUp g.units ((m.group? .unit).getD []) = .ok unit ∧ ∃ c ∈ result, c.1 = unit := by
  induction fuel generalizing found text with
  | zero =>
    have := hfound.length_le
    omega
  | succ fuel ih =>
    rw [counts] at h
    split at h
    · rename_i hnone
      obtain ⟨rfl, rfl⟩ := Prod.mk.inj (Except.ok.inj h)
      exact .inl hnone
    · rename_i m hm
      obtain ⟨unit, hunit, h⟩ := bind_eq_ok_iff.1 h
      split at h
      · rename_i hany
        obtain ⟨rfl, rfl⟩ := Prod.mk.inj (Except.ok.inj h)
        obtain ⟨c, hc, heq⟩ := List.any_eq_true.1 hany
        exact .inr ⟨m, unit, hm, hunit, c, hc, of_decide_eq_true heq⟩
      · rename_i hnew
        obtain ⟨count, h⟩ : ∃ count : Nat,
            counts g item (found ++ [(unit, (count : Int))]) fuel m.rest = .ok (result, rest) := by
          split at h
          · obtain ⟨count, -, h⟩ := bind_eq_ok_iff.1 h
            exact ⟨count, h⟩
          · exact ⟨1, h⟩
        refine ih (hfound.append_of_not_any hnew count) ?_ h
        rw [List.length_append, List.length_singleton]
        omega

theorem dayKeywords_english : Grammar.english.dayKeywords =
    [(Grammar.closed (.seq (Pattern.literal "day after tomorrow".toList) Pattern.wordEnd), 2),
      (Grammar.closed (.seq (Pattern.literal "tomorrow".toList) Pattern.wordEnd), 1),
      (Grammar.closed (.seq (Pattern.literal "today".toList) Pattern.wordEnd), 0)] := rfl

theorem spellings?_dayAfter :
    (Pattern.literal "day after tomorrow".toList : Pattern Field).spellings? =
      some ["day after tomorrow".toList] := by
  decide

/-- The ways to write the beginning of "day after tomorrow". -/
def dayAfterTexts : List (List Char) :=
  ['d', 'D'].flatMap fun d => ['a', 'A'].flatMap fun a => ['y', 'Y'].flatMap fun y =>
    ['a', 'A'].flatMap fun a' => ['f', 'F'].map fun f => [d, a, y, ' ', a', f]

/-- The day after tomorrow is named by these letters. -/
theorem exists_of_keyword_two {found : Found} (h : keyword .english text = .ok (some found))
    (hdays : found.part = ofSpan (.days 2)) :
    ∃ chars ∈ dayAfterTexts, chars <+: text := by
  obtain ⟨⟨p, days⟩, hmem, m, hm, hread, -⟩ := of_firstPart h
  have htwo : (days : Int) = 2 := by
    have := (Option.some.inj (Except.ok.inj hread)).trans hdays
    simpa [ofSpan] using this
  obtain rfl : days = 2 := by omega
  have hp : p = Grammar.closed (.seq (.literal "day after tomorrow".toList) Pattern.wordEnd) := by
    simpa [dayKeywords_english] using hmem
  have hfits := hp ▸ fits_of_begins hm
  obtain ⟨_, _, _, ⟨_, _, _, hword, -⟩, -⟩ := hfits
  obtain ⟨word, hspelled, chars, rfl, hsame⟩ := hword.exists_spelling spellings?_dayAfter
  have hbegin : "day after tomorrow".toList =
      'd' :: 'a' :: 'y' :: ' ' :: 'a' :: 'f' :: "ter tomorrow".toList := by decide
  rw [List.mem_singleton.1 hspelled, hbegin] at hsame
  simp only [List.forall₂_cons_left_iff] at hsame
  obtain ⟨d, _, hd, ⟨a, _, ha, ⟨y, _, hy, ⟨b, _, hb, ⟨a', _, ha', ⟨f, others, hf, -, rfl⟩, rfl⟩,
    rfl⟩, rfl⟩, rfl⟩, rfl⟩ := hsame
  have hletter {l u c : Char} (h : sameLetter l c = true) (hl : Text.foldLetter l = l)
      (hplain : l ∉ ['s', 'i', 'k']) (hascii : l.toNat < 128)
      (hu : 97 ≤ l.toNat → Char.ofNat (l.toNat - 32) = u) : c ∈ [l, u] := by
    rcases Text.eq_of_sameLetter h hl hplain hascii with rfl | ⟨hsmall, rfl⟩
    · exact List.mem_cons_self ..
    · exact hu hsmall ▸ List.mem_cons_of_mem _ (List.mem_singleton_self _)
  have hd := @hletter 'd' 'D' d hd rfl (by decide) (by decide) fun _ => rfl
  have ha := @hletter 'a' 'A' a ha rfl (by decide) (by decide) fun _ => rfl
  have hy := @hletter 'y' 'Y' y hy rfl (by decide) (by decide) fun _ => rfl
  have hb := @hletter ' ' ' ' b hb rfl (by decide) (by decide) fun h => absurd h (by decide)
  have ha' := @hletter 'a' 'A' a' ha' rfl (by decide) (by decide) fun _ => rfl
  have hf := @hletter 'f' 'F' f hf rfl (by decide) (by decide) fun _ => rfl
  obtain rfl : b = ' ' := by simpa using hb
  refine ⟨[d, a, y, ' ', a', f], ?_, ⟨_, rfl⟩⟩
  simp only [dayAfterTexts, List.mem_flatMap, List.mem_map]
  exact ⟨d, hd, a, ha, y, hy, a', ha', f, hf, rfl⟩

theorem traces_dayAfter : ∀ chars ∈ dayAfterTexts,
    (((Grammar.spanItem .english true).traces? sameLetter true ⟨chars.map .char, []⟩).bind
      List.head?).map (·.group? .unit) = some (some ((chars.take 3).map .char)) ∧
      lookUp Grammar.english.units (chars.take 3) = .ok .day := by
  decide

/-- A repeating span would take in the beginning of "day after tomorrow" as a day. -/
theorem begins_spanItem_dayAfter {chars : List Char} (hchars : chars ∈ dayAfterTexts)
    (hbegin : chars <+: text) :
    ∃ m, begins (Grammar.spanItem .english true) text = some m ∧
      lookUp Grammar.english.units ((m.group? .unit).getD []) = .ok .day := by
  obtain ⟨htrace, hlook⟩ := traces_dayAfter chars hchars
  obtain ⟨rest, rfl⟩ := hbegin
  obtain ⟨t, hbind, hunit⟩ := Option.map_eq_some_iff.1 htrace
  obtain ⟨found, hfound, hhead⟩ := Option.bind_eq_some_iff.1 hbind
  have hmatches := Pattern.matches?_fill (digitsAt []) rest digitsAt_nil_mem (.inl rfl) hfound
  have htext : (Trace.fill (digitsAt []) rest ⟨chars.map .char, []⟩ : Match Field) =
      ⟨chars ++ rest, []⟩ := by
    simp [Trace.fill, fill, Sign.fill, Function.comp_def]
  rw [htext] at hmatches
  refine ⟨t.fill (digitsAt []) rest, ?_, ?_⟩
  · rw [begins, Pattern.first?, hmatches, List.head?_map, hhead, Option.map_some]
  · rw [Trace.group?_fill, hunit, Option.map_some, Option.getD_some, ← hlook]
    simp [Sign.fill, Function.comp_def]

/-- A repeating span that "day after tomorrow" follows counts days. -/
theorem exists_day_of_span {found next : Found} {cs : List (TimeUnit × Int)}
    (h : span .english text = .ok (some found)) (hspan : found.part = ofSpan (.counts cs true))
    (hnext : keyword .english found.rest = .ok (some next))
    (hdays : next.part = ofSpan (.days 2)) : ∃ c ∈ cs, c.1 = .day := by
  obtain ⟨chars, hchars, hbegin⟩ := exists_of_keyword_two hnext hdays
  obtain ⟨m, hm, hlook⟩ := begins_spanItem_dayAfter hchars hbegin
  have hafter {opening : Pattern Field} {looped : Bool} (h : spanAfter .english opening
      (Grammar.spanItem .english looped) looped text = .ok (some found)) :
      looped = true ∧ ∃ c ∈ cs, c.1 = .day := by
    simp only [spanAfter] at h
    split at h
    · cases h
    · obtain ⟨⟨result, rest⟩, hcounts, h⟩ := bind_eq_ok_iff.1 h
      simp only [pure_eq_ok, Except.ok.injEq] at h
      split at h
      · cases h
      · obtain rfl := Option.some.inj h
        have hresult : Span.ofCounts result looped = .counts cs true := by
          simpa [ofSpan] using hspan
        obtain ⟨rfl, rfl⟩ := Span.counts.inj hresult
        refine ⟨rfl, ?_⟩
        rcases stop_of_counts .nil (Nat.lt_succ_self _) hcounts with hnone | hstop
        · cases hm.symm.trans hnone
        · obtain ⟨m', unit, hm', hlook', c, hc, rfl⟩ := hstop
          obtain rfl := Option.some.inj (hm.symm.trans hm')
          exact ⟨c, Span.mem_sortedCounts.2 hc, Except.ok.inj (hlook'.symm.trans hlook)⟩
  simp only [span, spans_english] at h
  obtain ⟨looped, hlooped, h⟩ := bind_eq_ok_iff.1 h
  cases looped with
  | none => cases (hafter h).1
  | some first =>
    obtain rfl := Option.some.inj (Except.ok.inj h)
    exact (hafter hlooped).2

end TimePhrase.Recognizer
