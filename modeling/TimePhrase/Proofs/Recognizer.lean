import Mathlib.Data.List.Pairwise
import Mathlib.Data.List.Perm.Subperm
import TimePhrase.Recognizer
import TimePhrase.Proofs.Calendar.Date
import TimePhrase.Proofs.Part.Range
import TimePhrase.Proofs.Pattern.Fit
import TimePhrase.Proofs.Text.Number
import TimePhrase.Proofs.Validity

/-!
# What recognizers find

A recognizer finds content with numbers that exist, or a limiter without a limit, and leaves an
end of the text. The content is of a form that a text can give it: a date with a year does not
repeat, and numbers have no more digits than are read.
-/

namespace TimePhrase

/-- Counts whose numbers have no more digits than are read. -/
def ShortCounts (counts : List (TimeUnit × Int)) : Prop :=
  ∀ c ∈ counts, ∃ n : Nat, c.2 = n ∧ n < 10 ^ Text.maxDigits

theorem shortCounts_iff {counts : List (TimeUnit × Int)} :
    ShortCounts counts ↔ ∀ c ∈ counts, 0 ≤ c.2 ∧ c.2.natAbs < 10 ^ Text.maxDigits := by
  refine forall₂_congr fun c _ => ⟨fun ⟨n, hn, hlt⟩ => ?_, fun ⟨hnonneg, hlt⟩ => ?_⟩
  · rw [hn, Int.natAbs_natCast]
    exact ⟨Int.natCast_nonneg n, hlt⟩
  · exact ⟨c.2.natAbs, by omega, hlt⟩

/-- The content can be put into words that mean just it. -/
def Content.Expressible : Content → Prop
  | .point (.date _ _ (some _) looped) => looped = false
  | .span (.days count) => count ≤ 2
  | _ => True

/-- The part is content with numbers that exist, or a limiter without a limit. -/
inductive Part.Recognized : Part → Prop
  | content {c : Content} (h : c.InRange) (hwords : c.Expressible) : Recognized (.content c)
  | limiter (side : Side) : Recognized (.limiter side none)

theorem Part.Recognized.inRange {p : Part} (h : p.Recognized) : p.InRange := by
  cases h with
  | content h _ => exact .content h
  | limiter side => exact .bare side

namespace Recognizer

variable {g : Grammar} {text rest : List Char} {found : Found}

theorem fits_of_begins {p : Pattern Field} {m : Match Field} (h : begins p text = some m) :
    p.Fits Text.sameLetter text m.rest m.groups := by
  obtain ⟨kept, hkept, hfits⟩ := Pattern.fits_of_mem_matches? (List.mem_of_mem_head? h)
  rwa [hkept, List.append_nil]

theorem rest_suffix_of_begins {p : Pattern Field} {m : Match Field} (h : begins p text = some m) :
    m.rest <:+ text := Pattern.rest_suffix_of_first? h

/-- The first pattern that fits and is accepted gives the value. -/
theorem of_firstRead {α β : Type} {read : α → Match Field → Except Failure (Option β)}
    {patterns : List (Pattern Field × α)} {value : β}
    (h : firstRead read text patterns = .ok (some (value, rest))) :
    ∃ pattern ∈ patterns, ∃ m, begins pattern.1 text = some m ∧
      read pattern.2 m = .ok (some value) ∧ m.rest = rest := by
  induction patterns with
  | nil => exact absurd h nofun
  | cons pattern others ih =>
    obtain ⟨p, info⟩ := pattern
    have hothers (h : firstRead read text others = .ok (some (value, rest))) :
        ∃ pattern ∈ (p, info) :: others, ∃ m, begins pattern.1 text = some m ∧
          read pattern.2 m = .ok (some value) ∧ m.rest = rest := by
      obtain ⟨pattern, hmem, hfound⟩ := ih h
      exact ⟨pattern, List.mem_cons_of_mem _ hmem, hfound⟩
    rw [firstRead] at h
    split at h
    · exact hothers h
    · rename_i m hm
      obtain ⟨result, hread, h⟩ := bind_eq_ok_iff.1 h
      cases result with
      | none => exact hothers h
      | some found =>
        obtain ⟨rfl, rfl⟩ := Prod.mk.inj (Option.some.inj (Except.ok.inj h))
        exact ⟨(p, info), List.mem_cons_self .., m, hm, hread, rfl⟩

theorem of_firstPart {α : Type} {read : α → Match Field → Except Failure (Option Part)}
    {patterns : List (Pattern Field × α)} (h : firstPart patterns text read = .ok (some found)) :
    ∃ pattern ∈ patterns, ∃ m, begins pattern.1 text = some m ∧
      read pattern.2 m = .ok (some found.part) ∧ m.rest = found.rest := by
  obtain ⟨result, hread, h⟩ := bind_eq_ok_iff.1 h
  obtain ⟨⟨part, rest⟩, rfl, rfl⟩ := Option.map_eq_some_iff.1 (Except.ok.inj h)
  exact of_firstRead hread

/-- What the words of a language stand for is in the calendar. -/
theorem grammar_bounds (locale : Locale) :
    (∀ n ∈ locale.grammar.weekdayNumbers, 1 ≤ n.2 ∧ n.2 ≤ 7) ∧
      ∀ n ∈ locale.grammar.monthNumbers, 1 ≤ n.2 ∧ n.2 ≤ 12 := by
  cases locale <;> decide +kernel

/-- A date that repeats has no year, and no day is called farther than two days away. -/
theorem grammar_forms (locale : Locale) :
    (∀ p ∈ locale.grammar.dates, p.2 = true → (p.1.captures .year).isEmpty = true ∧
      (p.1.captures .shortYear).isEmpty = true) ∧ ∀ p ∈ locale.grammar.dayKeywords, p.2 ≤ 2 := by
  cases locale <;> decide +kernel

theorem mem_of_lookUp {α : Type} {meanings : List (String × α)} {word : List Char} {meaning : α}
    (h : lookUp meanings word = .ok meaning) : ∃ name, (name, meaning) ∈ meanings := by
  simp only [lookUp] at h
  split at h
  · rename_i name meaning' hfind
    exact ⟨name, Except.ok.inj h ▸ List.mem_of_find?_eq_some hfind⟩
  · exact absurd h nofun

theorem lt_of_readNumber {digits : List Char} {n : Nat} (h : readNumber digits = .ok n) :
    n < 10 ^ Text.maxDigits := by
  unfold readNumber at h
  split at h
  · exact absurd h nofun
  · rename_i hlength
    obtain rfl := Except.ok.inj h
    exact Nat.lt_of_lt_of_le (Text.digitsValue_lt digits)
      (Nat.pow_le_pow_right (by decide) (Nat.le_of_not_lt hlength))

/-- The counts of a span are of different units. -/
def Distinct (found : List (TimeUnit × Int)) : Prop :=
  found.Pairwise fun a b => a.1 ≠ b.1

theorem Distinct.append_of_not_any {found : List (TimeUnit × Int)} (hfound : Distinct found)
    {unit : TimeUnit} (hnew : ¬ found.any (·.1 = unit) = true) (count : Int) :
    Distinct (found ++ [(unit, count)]) := by
  refine List.pairwise_append.2 ⟨hfound, List.pairwise_singleton .., ?_⟩
  intro a ha b hb heq
  obtain rfl := List.mem_singleton.1 hb
  exact hnew (List.any_eq_true.2 ⟨a, ha, decide_eq_true heq⟩)

theorem Distinct.length_le {found : List (TimeUnit × Int)} (hfound : Distinct found) :
    found.length ≤ TimeUnit.all.length := by
  have hsubset : found.map (·.1) ⊆ TimeUnit.all := fun unit _ => by cases unit <;> decide
  have hlength := (List.subperm_of_subset (List.pairwise_map.2 hfound) hsubset).length_le
  rwa [List.length_map] at hlength

theorem of_counts {item : Pattern Field} {fuel : Nat} {found result : List (TimeUnit × Int)}
    (hfound : Distinct found ∧ ShortCounts found)
    (h : counts g item found fuel text = .ok (result, rest)) :
    (Distinct result ∧ ShortCounts result) ∧ rest <:+ text := by
  induction fuel generalizing found text with
  | zero =>
    obtain ⟨rfl, rfl⟩ := Prod.mk.inj (Except.ok.inj h)
    exact ⟨hfound, List.suffix_refl _⟩
  | succ fuel ih =>
    rw [counts] at h
    split at h
    · obtain ⟨rfl, rfl⟩ := Prod.mk.inj (Except.ok.inj h)
      exact ⟨hfound, List.suffix_refl _⟩
    · rename_i m hm
      obtain ⟨unit, -, h⟩ := bind_eq_ok_iff.1 h
      split at h
      · obtain ⟨rfl, rfl⟩ := Prod.mk.inj (Except.ok.inj h)
        exact ⟨hfound, List.suffix_refl _⟩
      · rename_i hnew
        obtain ⟨count, hcount, h⟩ : ∃ count : Nat, count < 10 ^ Text.maxDigits ∧
            counts g item (found ++ [(unit, (count : Int))]) fuel m.rest = .ok (result, rest) := by
          split at h
          · obtain ⟨count, hcount, h⟩ := bind_eq_ok_iff.1 h
            exact ⟨count, lt_of_readNumber hcount, h⟩
          · exact ⟨1, Nat.one_lt_pow (by decide) (by decide), h⟩
        have hnext : Distinct (found ++ [(unit, (count : Int))]) ∧
            ShortCounts (found ++ [(unit, (count : Int))]) := by
          refine ⟨hfound.1.append_of_not_any hnew count, fun c hc => ?_⟩
          rcases List.mem_append.1 hc with hc | hc
          · exact hfound.2 c hc
          · obtain rfl := List.mem_singleton.1 hc
            exact ⟨count, rfl, hcount⟩
        obtain ⟨hresult, hrest⟩ := ih hnext h
        exact ⟨hresult, hrest.trans (rest_suffix_of_begins hm)⟩

/-- Sorted by their units, counts of different units make a span in range. -/
theorem inRange_ofCounts {found : List (TimeUnit × Int)} {looped : Bool}
    (hunits : Distinct found) (hshort : ShortCounts found) (hne : found ≠ []) :
    (Span.ofCounts found looped).InRange := by
  refine ⟨?_, ?_, shortCounts_iff.1 fun c hc => hshort c (Span.mem_sortedCounts.1 hc)⟩
  · obtain ⟨c, hc⟩ := List.exists_mem_of_ne_nil _ hne
    exact List.ne_nil_of_mem (Span.mem_sortedCounts.2 hc)
  · rw [List.pairwise_map, List.pairwise_flatMap]
    constructor
    · intro u _
      refine (hunits.filter _).imp_of_mem fun {a b} ha hb hne => ?_
      have ha := of_decide_eq_true (List.mem_filter.1 ha).2
      have hb := of_decide_eq_true (List.mem_filter.1 hb).2
      exact absurd (ha.trans hb.symm) hne
    · have hsorted : TimeUnit.all.Pairwise fun u v => u.rank < v.rank := by decide
      refine hsorted.imp fun hlt a ha b hb => ?_
      rw [of_decide_eq_true (List.mem_filter.1 ha).2, of_decide_eq_true (List.mem_filter.1 hb).2]
      exact hlt

theorem of_spanAfter {opening item : Pattern Field} {looped : Bool}
    (h : spanAfter g opening item looped text = .ok (some found)) :
    found.part.Recognized ∧ found.part.kind = .span ∧ found.rest <:+ text := by
  simp only [spanAfter] at h
  split at h
  · exact absurd h nofun
  · rename_i m hm
    obtain ⟨⟨result, rest⟩, hcounts, h⟩ := bind_eq_ok_iff.1 h
    obtain ⟨⟨hunits, hshort⟩, hrest⟩ := of_counts ⟨.nil, nofun⟩ hcounts
    simp only [pure_eq_ok, Except.ok.injEq] at h
    split at h
    · exact absurd h nofun
    · rename_i hne
      obtain rfl := Option.some.inj h
      have hrange : (Span.ofCounts result looped).InRange :=
        inRange_ofCounts hunits hshort fun hnil => hne (by simp [hnil])
      have hpart : (Part.content (.span (.ofCounts result looped))).Recognized :=
        .content hrange trivial
      exact ⟨hpart, rfl, hrest.trans (rest_suffix_of_begins hm)⟩

theorem of_span (h : span g text = .ok (some found)) :
    found.part.Recognized ∧ found.part.kind = .span ∧ found.rest <:+ text := by
  simp only [span] at h
  split at h
  · obtain ⟨looped, hlooped, h⟩ := bind_eq_ok_iff.1 h
    cases looped with
    | none => exact of_spanAfter h
    | some first =>
      obtain rfl := Option.some.inj (Except.ok.inj h)
      exact of_spanAfter hlooped
  · exact of_spanAfter h

/-- A recognizer by patterns finds what `read` gives for one of them. -/
theorem of_firstPart_of_read {α : Type} {kind : Kind}
    {read : α → Match Field → Except Failure (Option Part)} {patterns : List (Pattern Field × α)}
    (hread : ∀ pattern ∈ patterns, ∀ m, begins pattern.1 text = some m → ∀ part,
      read pattern.2 m = .ok (some part) → part.Recognized ∧ part.kind = kind)
    (h : firstPart patterns text read = .ok (some found)) :
    found.part.Recognized ∧ found.part.kind = kind ∧ found.rest <:+ text := by
  obtain ⟨pattern, hpattern, m, hm, hvalue, hrest⟩ := of_firstPart h
  obtain ⟨hpart, hkind⟩ := hread pattern hpattern m hm _ hvalue
  exact ⟨hpart, hkind, hrest ▸ rest_suffix_of_begins hm⟩

theorem of_time (h : time g text = .ok (some found)) :
    found.part.Recognized ∧ found.part.kind = .time ∧ found.rest <:+ text := by
  refine of_firstPart_of_read (fun _ _ m _ part hread => ?_) h
  obtain ⟨hour, -, hread⟩ := Option.bind_eq_some_iff.1 (Except.ok.inj hread)
  obtain ⟨clock, -, hread⟩ := Option.bind_eq_some_iff.1 hread
  obtain rfl := Option.some.inj hread
  exact ⟨.content (c := .point (.time clock false)) trivial trivial, rfl⟩

theorem of_invertedTime (h : invertedTime g text = .ok (some found)) :
    found.part.Recognized ∧ found.part.kind = .invertedTime ∧ found.rest <:+ text := by
  refine of_firstPart_of_read (fun _ _ m _ part hread => ?_) h
  split at hread
  · exact absurd hread nofun
  · split at hread
    · exact absurd hread nofun
    · -- Whatever the minutes are, and whether they are missing, the clock makes the part.
      have hclock {clock? : Option TimeOfDay}
          (h : (pure (clock?.map fun clock => ofPoint (.time clock true)) :
            Except Failure (Option Part)) = .ok (some part)) :
          part.Recognized ∧ part.kind = .invertedTime := by
        obtain ⟨clock, -, rfl⟩ := Option.map_eq_some_iff.1 (Except.ok.inj h)
        exact ⟨.content (c := .point (.time clock true)) trivial trivial, rfl⟩
      dsimp only at hread
      split at hread
      · exact hclock hread
      · obtain ⟨minutes, -, hread⟩ := bind_eq_ok_iff.1 hread
        exact hclock hread

/-- A date that was found has a day in its year, or in a leap year if it has none. -/
theorem of_date {locale : Locale} (h : date locale.grammar text = .ok (some found)) :
    found.part.Recognized ∧ found.part.kind = .date ∧ found.rest <:+ text := by
  refine of_firstPart_of_read (fun ⟨p, looped⟩ hpattern m hm part hread => ?_) h
  obtain ⟨day, -, hread⟩ := Option.bind_eq_some_iff.1 (Except.ok.inj hread)
  obtain ⟨month, -, hread⟩ := Option.bind_eq_some_iff.1 hread
  simp only at hread
  split at hread
  · rename_i hdate
    obtain rfl := Option.some.inj hread
    obtain ⟨date, hdate⟩ := Date.of?_isSome hdate
    refine ⟨.content (c := .point (.date day month _ looped)) ?_ ?_, rfl⟩
    · cases hyear : yearOf m <;> simp_all [Content.InRange, Point.InRange, someLeapYear]
    · cases hyear : yearOf m with
      | none => trivial
      | some year =>
        cases looped with
        | false => rfl
        | true =>
          obtain ⟨hnone, hshort⟩ := (grammar_forms locale).1 _ hpattern rfl
          have hfits := fits_of_begins hm
          simp [yearOf, shortNumber?, hfits.group?_eq_none hnone,
            hfits.group?_eq_none hshort] at hyear
  · exact absurd hread nofun

theorem of_monthDay (h : monthDay g text = .ok (some found)) :
    found.part.Recognized ∧ found.part.kind = .monthDay ∧ found.rest <:+ text := by
  refine of_firstPart_of_read (fun ⟨_, looped⟩ _ m _ part hread => ?_) h
  obtain ⟨day, -, hread⟩ := Option.bind_eq_some_iff.1 (Except.ok.inj hread)
  split at hread
  · obtain rfl := Option.some.inj hread
    exact ⟨.content (c := .point (.monthDay day looped)) ⟨by omega, by omega⟩ trivial, rfl⟩
  · exact absurd hread nofun

/-- A part is named, and its number is that of a name. -/
theorem of_name {kind : Kind} {patterns : List (Pattern Field × Bool)}
    {numbers : List (String × Nat)} (point : Nat → Bool → Point)
    (hpoint : ∀ n ∈ numbers, ∀ looped,
      (ofPoint (point n.2 looped)).Recognized ∧ (ofPoint (point n.2 looped)).kind = kind)
    (h : firstPart patterns text (fun looped m => do
      return some (ofPoint (point (← nameOf numbers m) looped))) = .ok (some found)) :
    found.part.Recognized ∧ found.part.kind = kind ∧ found.rest <:+ text := by
  refine of_firstPart_of_read (fun ⟨_, looped⟩ _ m _ part hread => ?_) h
  obtain ⟨n, hn, hread⟩ := bind_eq_ok_iff.1 hread
  obtain ⟨name, hname⟩ := mem_of_lookUp hn
  obtain rfl := Option.some.inj (Except.ok.inj hread)
  exact hpoint _ hname looped

theorem of_weekday {locale : Locale} (h : weekday locale.grammar text = .ok (some found)) :
    found.part.Recognized ∧ found.part.kind = .weekday ∧ found.rest <:+ text := by
  refine of_name (fun n looped => .weekday n looped) (fun n hn looped => ?_) h
  have hbounds := (grammar_bounds locale).1 n hn
  exact ⟨.content (c := .point (.weekday n.2 looped)) ⟨by omega, by omega⟩ trivial, rfl⟩

theorem of_month {locale : Locale} (h : month locale.grammar text = .ok (some found)) :
    found.part.Recognized ∧ found.part.kind = .month ∧ found.rest <:+ text := by
  refine of_name (fun n looped => .month n looped) (fun n hn looped => ?_) h
  have hbounds := (grammar_bounds locale).2 n hn
  exact ⟨.content (c := .point (.month n.2 looped)) ⟨by omega, by omega⟩ trivial, rfl⟩

theorem of_year (h : year g text = .ok (some found)) :
    found.part.Recognized ∧ found.part.kind = .year ∧ found.rest <:+ text := by
  refine of_firstPart_of_read (fun _ _ m _ part hread => ?_) h
  obtain ⟨number, -, hread⟩ := bind_eq_ok_iff.1 hread
  simp only [pure_eq_ok, Except.ok.injEq] at hread
  split at hread
  · rename_i hrange
    obtain rfl := Option.some.inj hread
    have hbounds := hrange.2
    unfold firstYear lastYear at hbounds
    exact ⟨.content (c := .point (.year number)) ⟨by omega, by omega⟩ trivial, rfl⟩
  · exact absurd hread nofun

theorem of_keyword {locale : Locale} (h : keyword locale.grammar text = .ok (some found)) :
    found.part.Recognized ∧ found.part.kind = .keyword ∧ found.rest <:+ text := by
  refine of_firstPart_of_read (fun ⟨_, days⟩ hpattern m _ part hread => ?_) h
  obtain rfl := Option.some.inj (Except.ok.inj hread)
  have hdays := (grammar_forms locale).2 _ hpattern
  have hrange : (Span.days days).InRange :=
    ⟨Int.natCast_nonneg days, lt_pow_maxDigits (by omega)⟩
  exact ⟨.content (c := .span (.days days)) hrange (Int.ofNat_le.2 hdays), rfl⟩

theorem of_limiter (h : limiter g text = .ok (some found)) :
    found.part.Recognized ∧ found.part.kind = .limiter ∧ found.rest <:+ text := by
  refine of_firstPart_of_read (fun ⟨_, side⟩ _ m _ part hread => ?_) h
  obtain rfl := Option.some.inj (Except.ok.inj hread)
  exact ⟨.limiter side, rfl⟩

/-- A recognizer finds a part of its kind and leaves an end of the text. -/
theorem of_ofKind {locale : Locale} {kind : Kind}
    (h : ofKind kind locale.grammar text = .ok (some found)) :
    found.part.Recognized ∧ found.part.kind = kind ∧ found.rest <:+ text := by
  cases kind with
  | time => exact of_time h
  | invertedTime => exact of_invertedTime h
  | date => exact of_date h
  | monthDay => exact of_monthDay h
  | weekday => exact of_weekday h
  | month => exact of_month h
  | year => exact of_year h
  | span => exact of_span h
  | keyword => exact of_keyword h
  | limiter => exact of_limiter h

end Recognizer

end TimePhrase
