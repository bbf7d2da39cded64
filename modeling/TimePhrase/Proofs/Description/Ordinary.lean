import TimePhrase.Proofs.Description.Whole
import TimePhrase.Proofs.Text.Ordinary

/-!
# Descriptions are ordinary texts

The words of a description have no special letters, and of its numbers only the counts of spans
can be long.
-/

namespace TimePhrase

open Text (Brief Ordinary brief_padNat padNat)

variable {text : String}

theorem brief_lead {length : Nat} {word : String} (looped : Bool) (h : Brief length word)
    (hlength : 5 ≤ length) : Brief length (lead looped word) := by
  have hevery : Brief 5 "every" := by decide
  cases looped with
  | false => exact h
  | true => exact ⟨hevery.1, hevery.2.trans hlength⟩

theorem mem_of_nameOf? {names : List String} {number : Int} {name : String}
    (h : nameOf? names number = some name) : name ∈ names := by
  unfold nameOf? at h
  split at h
  · exact List.mem_of_getElem? h
  · exact absurd h nofun

theorem brief_ordinal {d : Nat} (h : d ≤ 31) : Brief 4 (ordinal d) := by
  have hall : ∀ d ≤ 31, Brief 4 (ordinal (d : Nat)) := by decide
  exact hall d h

/-- The description of a point is short. -/
theorem Point.describe_brief {p : Point} (h : p.InRange) (htext : p.describe = .ok text) :
    Brief 20 text := by
  have hblank : Brief 1 " " := by decide
  have hdot : Brief 1 "." := by decide
  have hon : Brief 6 "on" := by decide
  have hin : Brief 6 "in" := by decide
  have hday {y m d : Nat} (h : IsDate y m d) : Brief 2 (padNat 2 d) ∧ Brief 2 (padNat 2 m) :=
    ⟨brief_padNat (by decide) (Nat.lt_of_le_of_lt (day_le_of_isDate h) (by decide)),
      brief_padNat (by decide) (Nat.lt_of_le_of_lt h.2.2.2.1 (by decide))⟩
  cases Content.described (c := .point p) h htext with
  | time clock inverted =>
    have hat : Brief 3 "at " := by decide
    have hcolon : Brief 1 ":" := by decide
    have hstamp : Brief 5 clock.stamp :=
      ((brief_padNat (by decide) (by omega)).append hcolon).append
        (brief_padNat (by decide) (by omega))
    exact (hat.append hstamp).mono (by decide)
  | @date y m d hdate looped =>
    have honBlank : Brief 3 "on " := by decide
    have hyear : Brief 4 (padNat 4 y) :=
      brief_padNat (by decide) (Nat.lt_of_le_of_lt hdate.2.1 (by decide))
    exact (((((honBlank.append (hday hdate).1).append hdot).append (hday hdate).2).append
      hdot).append hyear).mono (by decide)
  | dateWithoutYear hdate looped =>
    exact (((((brief_lead looped hon (by decide)).append hblank).append (hday hdate).1).append
      hdot).append (hday hdate).2).append hdot |>.mono (by decide)
  | monthDay hd looped =>
    have honThe : Brief 6 "on the" := by decide
    exact (((brief_lead looped honThe (by decide)).append hblank).append
      (brief_ordinal hd.2)).mono (by decide)
  | weekday hn hname looped =>
    have hnames : ∀ name ∈ weekdayNames, Brief 9 name := by decide
    exact (((brief_lead looped hon (by decide)).append hblank).append
      (hnames _ (mem_of_nameOf? hname))).mono (by decide)
  | month hn hname looped =>
    have hnames : ∀ name ∈ monthNames, Brief 9 name := by decide
    exact (((brief_lead looped hin (by decide)).append hblank).append
      (hnames _ (mem_of_nameOf? hname))).mono (by decide)
  | @year y hy =>
    have hinBlank : Brief 3 "in " := by decide
    have hyear : Brief 4 (padNat 4 y) :=
      brief_padNat (by decide) (Nat.lt_of_le_of_lt hy.2 (by decide))
    exact (hinBlank.append hyear).mono (by decide)

theorem ordinary_countText {unit : TimeUnit} {n : Nat} (h : n < 10 ^ Text.maxDigits) :
    Ordinary (countText (unit, (n : Int))).toList := by
  have hdigits : Ordinary (Nat.toDigits 10 n) := by
    refine Text.ordinary_of_length_le
      (fun c hc => Text.not_mem_specialLetters (Text.mem_toDigits hc)) ?_
    exact (Nat.length_toDigits_le_iff (by decide) (by decide)).2 h
  have hunit : Brief 7 (Recognizer.unitText unit (n = 1)) := by
    have hall : ∀ one, Brief 7 (Recognizer.unitText unit one) := by cases unit <;> decide
    exact hall _
  rw [Recognizer.toList_countText]
  exact hdigits.blank_append (hunit.ordinary (by decide))

theorem ordinary_joinedCounts {cs : List (TimeUnit × Int)} (h : ShortCounts cs) :
    Ordinary (" and ".intercalate (cs.map countText)).toList := by
  have hcount (c : TimeUnit × Int) (hc : ∃ n : Nat, c.2 = n ∧ n < 10 ^ Text.maxDigits) :
      Ordinary (countText c).toList := by
    obtain ⟨unit, count⟩ := c
    obtain ⟨n, rfl, hn⟩ := hc
    exact ordinary_countText hn
  induction cs with
  | nil => exact Text.ordinary_of_length_le nofun (Nat.zero_le _)
  | cons c rest ih =>
    obtain ⟨hc, hrest⟩ := List.forall_mem_cons.1 h
    cases rest with
    | nil =>
      rw [List.map_cons, List.map_nil, String.intercalate_singleton]
      exact hcount c hc
    | cons d rest =>
      have hand : Brief 3 "and" := by decide
      rw [Recognizer.joinedCounts_cons]
      exact (hcount c hc).blank_append ((hand.ordinary (by decide)).blank_append (ih hrest))

/-- The description of content is an ordinary text. -/
theorem Content.describe_ordinary {c : Content} (h : c.InRange) (hwords : c.Expressible)
    (htext : c.describe = .ok text) : Ordinary text.toList := by
  rcases c with p | s
  · exact (Point.describe_brief h htext).ordinary (by decide)
  · cases Content.described h htext with
    | @counts cs looped hcs =>
      have hin : Brief 5 "in" := by decide
      have hlead := (brief_lead looped hin (by decide)).ordinary (by decide)
      have hwritten : (lead looped "in" ++ " " ++ " and ".intercalate (cs.map countText)).toList =
          (lead looped "in").toList ++ ' ' :: (" and ".intercalate (cs.map countText)).toList := by
        simp
      rw [hwritten]
      exact hlead.blank_append (ordinary_joinedCounts (shortCounts_iff.2 hcs.2.2))
    | days count =>
      have hall : ∀ n ≤ 2, Brief 20 (dayText (n : Nat)) := by decide
      exact (hall count (Int.ofNat_le.1 hwords)).ordinary (by decide)

/-- The description of a chain is an ordinary text. -/
theorem ordinary_describeAll {chain : List Part} {texts : List String}
    (hparts : ∀ p ∈ chain, p.Recognized) (htexts : describeAll chain = .ok texts) :
    Ordinary (" ".intercalate texts).toList := by
  induction chain generalizing texts with
  | nil =>
    obtain rfl := Except.ok.inj (describeAll_nil.symm.trans htexts)
    exact Text.ordinary_of_length_le nofun (Nat.zero_le _)
  | cons p rest ih =>
    obtain ⟨text, others, htext, hothers, rfl⟩ := exists_of_describeAll_cons htexts
    obtain ⟨hp, hrest⟩ := List.forall_mem_cons.1 hparts
    have hfirst : Ordinary text.toList := by
      cases hp with
      | content hrange hwords =>
        rw [Part.describe] at htext
        exact Content.describe_ordinary hrange hwords htext
      | limiter side =>
        rw [Part.describe] at htext
        have hword : Brief 5 side.word := by cases side <;> decide
        exact Except.ok.inj htext ▸ hword.ordinary (by decide)
    have hothers := ih hrest hothers
    cases others with
    | nil => exact hfirst
    | cons other others =>
      rw [toList_intercalate_cons] at hothers ⊢
      exact hfirst.blank_append hothers

section Ends

/-- The text ends with something other than a blank. -/
def Ends (text : List Char) : Prop := text.getLast?.any (!Text.isBlank ·) = true

instance (text : List Char) : Decidable (Ends text) := inferInstanceAs (Decidable (_ = true))

theorem Ends.append_left {text : List Char} (h : Ends text) (before : List Char) :
    Ends (before ++ text) := by
  unfold Ends at h ⊢
  rw [List.getLast?_append]
  cases hlast : text.getLast? with
  | none => rw [hlast] at h; exact absurd h nofun
  | some c => rwa [hlast] at h

theorem Ends.append {rest : String} (h : Ends rest.toList) (word : String) :
    Ends (word ++ rest).toList := by
  rw [String.toList_append]
  exact h.append_left _

theorem ends_padNat (width n : Nat) : Ends (padNat width n).toList := by
  have hdigit : ∀ c ∈ Text.plainDigits, Text.isBlank c = false :=
    List.all_iff_forall_prop.1 (by decide)
  have hne : Nat.toDigits 10 n ≠ [] := List.ne_nil_of_length_pos Nat.length_toDigits_pos
  rw [Text.toList_padNat]
  refine Ends.append_left ?_ _
  simp [Ends, List.getLast?_eq_some_getLast hne, hdigit _ (Text.mem_toDigits (List.getLast_mem hne))]

theorem ends_ordinal (n : Int) : Ends (ordinal n).toList := by
  refine Ends.append ?_ _
  unfold ordinalEnding
  split
  · decide
  · split
    · decide
    · split
      · decide
      · split <;> decide

theorem ends_joinedCounts {cs : List (TimeUnit × Int)} (hne : cs ≠ []) (h : ShortCounts cs) :
    Ends (" and ".intercalate (cs.map countText)).toList := by
  induction cs with
  | nil => exact absurd rfl hne
  | cons c rest ih =>
    cases rest with
    | nil =>
      obtain ⟨unit, count⟩ := c
      obtain ⟨n, rfl, -⟩ := h _ (List.mem_cons_self ..)
      have hunit : ∀ one, Ends (' ' :: (Recognizer.unitText unit one).toList) := by
        cases unit <;> decide
      rw [List.map_cons, List.map_nil, String.intercalate_singleton,
        Recognizer.toList_countText]
      exact (hunit _).append_left _
    | cons d rest =>
      rw [Recognizer.joinedCounts_cons]
      exact ((ih (List.cons_ne_nil d rest) (List.forall_mem_cons.1 h).2).append_left _).append_left _

/-- The description of content ends with something other than a blank. -/
theorem Content.describe_ends {c : Content} (h : c.InRange) (hwords : c.Expressible)
    (htext : c.describe = .ok text) : Ends text.toList := by
  cases c.described h htext with
  | time clock inverted => exact ((ends_padNat 2 clock.minute).append _).append _
  | @date y m d hdate looped => exact (ends_padNat 4 y).append _
  | dateWithoutYear hdate looped =>
    have hdot : Ends ".".toList := by decide
    exact hdot.append _
  | @monthDay d hd looped => exact (ends_ordinal d).append _
  | weekday hn hname looped =>
    have hnames : ∀ name ∈ weekdayNames, Ends name.toList := by decide
    exact (hnames _ (mem_of_nameOf? hname)).append _
  | month hn hname looped =>
    have hnames : ∀ name ∈ monthNames, Ends name.toList := by decide
    exact (hnames _ (mem_of_nameOf? hname)).append _
  | @year y hy => exact (ends_padNat 4 y).append _
  | counts hcs => exact (ends_joinedCounts hcs.1 (shortCounts_iff.2 hcs.2.2)).append _
  | days count =>
    have hall : ∀ n ≤ 2, Ends (dayText (n : Nat)).toList := by decide
    exact hall count (Int.ofNat_le.1 hwords)

theorem stripEnd_of_ends {text : List Char} (h : Ends text) : Text.stripEnd text = text := by
  obtain ⟨c, hlast, hc⟩ : ∃ c, text.getLast? = some c ∧ Text.isBlank c = false := by
    simpa [Ends, Option.any_eq_true] using h
  obtain ⟨before, rfl⟩ := List.getLast?_eq_some_iff.1 hlast
  simp [Text.stripEnd, hc]

theorem strip_of_ends {text : List Char} (hfirst : ∀ c ∈ text.head?, Text.isBlank c = false)
    (hends : Ends text) : Text.strip text = text := by
  have hstart : Text.stripStart text = text := by
    cases text with
    | nil => rfl
    | cons c rest => simp [Text.stripStart, hfirst c rfl]
  rw [Text.strip, hstart, stripEnd_of_ends hends]

theorem Part.describe_ends {p : Part} (h : p.Recognized) (htext : p.describe = .ok text) :
    Ends text.toList := by
  cases h with
  | content hrange hwords =>
    rw [Part.describe] at htext
    exact Content.describe_ends hrange hwords htext
  | limiter side =>
    rw [Part.describe] at htext
    have hword : Ends side.word.toList := by cases side <;> decide
    exact Except.ok.inj htext ▸ hword

theorem ends_describeAll {chain : List Part} {texts : List String}
    (hparts : ∀ p ∈ chain, p.Recognized) (htexts : describeAll chain = .ok texts)
    (hne : texts ≠ []) : Ends (" ".intercalate texts).toList := by
  induction chain generalizing texts with
  | nil =>
    exact absurd (Except.ok.inj (describeAll_nil.symm.trans htexts)).symm hne
  | cons p rest ih =>
    obtain ⟨text, others, htext, hothers, rfl⟩ := exists_of_describeAll_cons htexts
    obtain ⟨hp, hrest⟩ := List.forall_mem_cons.1 hparts
    cases others with
    | nil => exact p.describe_ends hp htext
    | cons other others =>
      have hends := ih hrest hothers (List.cons_ne_nil other others)
      rw [toList_intercalate_cons] at hends ⊢
      exact Ends.append_left (hends.append_left [' ']) text.toList

/-- The description of a chain has no blanks at its ends. -/
theorem strip_describeAll {chain : List Part} {texts : List String}
    (hparts : ∀ p ∈ chain, p.Recognized) (htexts : describeAll chain = .ok texts) :
    Text.strip (" ".intercalate texts).toList = (" ".intercalate texts).toList := by
  cases texts with
  | nil => rfl
  | cons text texts =>
    refine strip_of_ends ?_ (ends_describeAll hparts htexts (List.cons_ne_nil text texts))
    obtain ⟨hnext, -⟩ := continues_describeAll hparts htexts
    rcases hnext with ⟨hnil, -⟩ | ⟨opening, hopening, ⟨more, heq⟩, -⟩
    · exact absurd hnil nofun
    · rw [← heq]
      exact Recognizer.isBlank_opening opening hopening more

end Ends

end TimePhrase
