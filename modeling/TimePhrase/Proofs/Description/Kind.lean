import TimePhrase.Proofs.Description.Ordinary

/-!
# The kind of a described part

The first words of a description tell what kind of part it describes, whatever description follows
it. Only a time of day and an inverted time are described alike.
-/

namespace TimePhrase

open Text (plainDigits padNat padInt)

/-- The first word of a text. -/
def firstWord (text : List Char) : List Char := text.takeWhile (· ≠ ' ')

/-- What follows the first word of a text and the blank behind it. -/
def behindWord (text : List Char) : List Char := (text.dropWhile (· ≠ ' ')).drop 1

section Words

variable {word tail : List Char}

theorem firstWord_append (hword : ' ' ∉ word) (htail : ∀ c ∈ tail.head?, c = ' ') :
    firstWord (word ++ tail) = word := by
  have hall : ∀ c ∈ word, decide (c ≠ ' ') = true := fun c hc =>
    decide_eq_true fun heq => hword (heq ▸ hc)
  rw [firstWord, List.takeWhile_append_of_pos hall]
  cases tail with
  | nil => simp
  | cons c rest => simp [htail c rfl]

theorem behindWord_append (hword : ' ' ∉ word) (htail : ∀ c ∈ tail.head?, c = ' ') :
    behindWord (word ++ tail) = tail.drop 1 := by
  have hall : ∀ c ∈ word, decide (c ≠ ' ') = true := fun c hc =>
    decide_eq_true fun heq => hword (heq ▸ hc)
  rw [behindWord, List.dropWhile_append_of_pos hall]
  cases tail with
  | nil => rfl
  | cons c rest => simp [htail c rfl]

theorem head?_blank (rest : List Char) : ∀ c ∈ (' ' :: rest).head?, c = ' ' :=
  fun _ hc => (Option.some.inj hc).symm

theorem head?_spaced (texts : List String) : ∀ c ∈ (spaced texts).head?, c = ' ' := by
  cases texts with
  | nil => exact nofun
  | cons text texts => exact head?_blank _

end Words

/-- The names of units where they are counted. -/
def plurals : List (List Char) := TimeUnit.all.map fun unit => (unit.name ++ "s").toList

/-- The kind of the part that is described where a text of descriptions begins. -/
def writtenKind (text : List Char) : Kind :=
  let first := firstWord text
  let second := firstWord (behindWord text)
  let third := firstWord (behindWord (behindWord text))
  if first = "at".toList then .time
  else if first ∈ ["from".toList, "until".toList] then .limiter
  else if first ∈ ["on".toList, "in".toList, "every".toList] then
    if second = "the".toList then .monthDay
    else if second.all (· ∈ plainDigits) then
      if second.length = 4 ∧ third ∉ plurals then .year else .span
    else if '.' ∈ second then .date
    else if second.any (· ∈ plainDigits) then .monthDay
    else if second ∈ monthNames.map String.toList then .month
    else .weekday
  else .keyword

section Written

variable {opening word rest : List Char} {texts : List String}

/-- What a description with one of the words "on", "in" and "every" is of depends on the words
behind it. -/
theorem writtenKind_lead {tail : List Char}
    (hopening : opening ∈ ["on".toList, "in".toList, "every".toList]) (hword : ' ' ∉ word)
    (htail : ∀ c ∈ tail.head?, c = ' ') :
    writtenKind (opening ++ ' ' :: (word ++ tail)) =
      if word = "the".toList then .monthDay
      else if word.all (· ∈ plainDigits) then
        if word.length = 4 ∧ firstWord (tail.drop 1) ∉ plurals then .year else .span
      else if '.' ∈ word then .date
      else if word.any (· ∈ plainDigits) then .monthDay
      else if word ∈ monthNames.map String.toList then .month
      else .weekday := by
  have hblank : ∀ opening ∈ ["on".toList, "in".toList, "every".toList], ' ' ∉ opening := by decide
  have hrest := head?_blank (word ++ tail)
  have hother : ∀ opening ∈ ["on".toList, "in".toList, "every".toList],
      opening ≠ "at".toList ∧ opening ∉ ["from".toList, "until".toList] := by decide
  simp only [writtenKind, firstWord_append (hblank _ hopening) hrest,
    behindWord_append (hblank _ hopening) hrest, List.drop_one, List.tail_cons,
    firstWord_append hword htail, behindWord_append hword htail, if_neg (hother _ hopening).1,
    if_neg (hother _ hopening).2, if_pos hopening]

theorem lead_mem (looped : Bool) {word : String} (hword : word ∈ ["on", "in"]) :
    (lead looped word).toList ∈ ["on".toList, "in".toList, "every".toList] := by
  cases looped with
  | true => exact List.mem_of_mem_tail (List.mem_of_mem_tail (List.mem_singleton_self _))
  | false =>
    revert word
    decide

theorem not_mem_of_plainDigits {c : Char} (hc : c ∉ plainDigits) {digits : List Char}
    (h : ∀ d ∈ digits, d ∈ plainDigits) : c ∉ digits :=
  fun hmem => hc (h c hmem)

/-- The days of a month are described by their digits and an ending. -/
theorem ordinal_chars : ∀ d : Fin 32, 1 ≤ d.val →
    ' ' ∉ (ordinal d).toList ∧ (ordinal d).toList ≠ "the".toList ∧
      (ordinal d).toList.all (· ∈ plainDigits) = false ∧ '.' ∉ (ordinal d).toList ∧
        (ordinal d).toList.any (· ∈ plainDigits) = true := by
  decide

/-- Names have no blanks, points or digits. -/
theorem name_chars : ∀ name ∈ monthNames ++ weekdayNames, ' ' ∉ name.toList ∧
    name.toList ≠ "the".toList ∧ name.toList.all (· ∈ plainDigits) = false ∧ '.' ∉ name.toList ∧
      name.toList.any (· ∈ plainDigits) = false := by
  decide

/-- A date is written with digits and points. -/
theorem date_chars {d m : Nat} {year : List Char} (hyear : ' ' ∉ year) :
    let word := (padNat 2 d).toList ++ '.' :: ((padNat 2 m).toList ++ '.' :: year)
    ' ' ∉ word ∧ word ≠ "the".toList ∧ word.all (· ∈ plainDigits) = false ∧ '.' ∈ word := by
  intro word
  have hblank {n : Nat} : ' ' ∉ (padNat 2 n).toList :=
    not_mem_of_plainDigits (by decide) fun _ => Text.mem_padNat
  have hpoint : '.' ∈ word := List.mem_append_right _ (List.mem_cons_self ..)
  refine ⟨?_, ?_, ?_, hpoint⟩
  · simp [word, hblank, hyear]
  · intro heq
    rw [heq] at hpoint
    exact absurd hpoint (by decide)
  · exact List.all_eq_false.2 ⟨'.', hpoint, by decide⟩

/-- A name is written with letters. -/
theorem writtenKind_name {opening : List Char} {name : String} (texts : List String)
    (hopening : opening ∈ ["on".toList, "in".toList, "every".toList])
    (hname : name ∈ monthNames ++ weekdayNames) :
    writtenKind (opening ++ ' ' :: (name.toList ++ spaced texts)) =
      if name.toList ∈ monthNames.map String.toList then .month else .weekday := by
  obtain ⟨hblank, hthe, hall, hpoint, hany⟩ := name_chars name hname
  rw [writtenKind_lead hopening hblank (head?_spaced texts), if_neg hthe, hall,
    if_neg Bool.false_ne_true, if_neg hpoint, hany, if_neg Bool.false_ne_true]

theorem writtenKind_date {d m : Nat} {year tail : List Char}
    (hopening : opening ∈ ["on".toList, "in".toList, "every".toList]) (hyear : ' ' ∉ year)
    (htail : ∀ c ∈ tail.head?, c = ' ') :
    writtenKind (opening ++
      ' ' :: ((padNat 2 d).toList ++ '.' :: ((padNat 2 m).toList ++ '.' :: year)) ++ tail) =
        .date := by
  obtain ⟨hblank, hthe, hdigits, hpoint⟩ := @date_chars d m year hyear
  rw [List.append_assoc, List.cons_append, writtenKind_lead hopening hblank htail, if_neg hthe,
    hdigits, if_neg Bool.false_ne_true, if_pos hpoint]

/-- A day of the month comes after "the", unless it repeats. -/
theorem writtenKind_monthDay {d : Nat} (looped : Bool) (hfirst : 1 ≤ d) (hlast : d ≤ 31)
    (texts : List String) :
    writtenKind ((lead looped "on the" ++ " " ++ ordinal d).toList ++ spaced texts) =
      .monthDay := by
  cases looped with
  | false =>
    have hthe : (lead false "on the" ++ " " ++ ordinal d).toList ++ spaced texts =
        "on".toList ++ ' ' :: ("the".toList ++ ' ' :: ((ordinal d).toList ++ spaced texts)) := by
      simp [lead]
    have hword : ' ' ∉ "the".toList := by decide
    rw [hthe, writtenKind_lead (List.mem_cons_self ..) hword (head?_blank _), if_pos rfl]
  | true =>
    obtain ⟨hblank, hthe, hall, hpoint, hany⟩ := ordinal_chars ⟨d, by omega⟩ hfirst
    have hevery : (lead true "on the" ++ " " ++ ordinal d).toList ++ spaced texts =
        "every".toList ++ ' ' :: ((ordinal d).toList ++ spaced texts) := by
      simp [lead]
    rw [hevery, writtenKind_lead (by decide) hblank (head?_spaced texts), if_neg hthe, hall,
      if_neg Bool.false_ne_true, if_neg hpoint, hany, if_pos rfl]

/-- Four digits are a year, unless they count something. -/
theorem writtenKind_year {y : Nat} (hlast : y ≤ 9999)
    (hnext : firstWord ((spaced texts).drop 1) ∉ plurals) :
    writtenKind (("in " ++ padNat 4 y).toList ++ spaced texts) = .year := by
  have hdigits : ∀ c ∈ (padNat 4 y).toList, c ∈ plainDigits := fun _ => Text.mem_padNat
  have hlength : (padNat 4 y).toList.length = 4 := Text.length_padNat (by decide) (by omega)
  have hthe : (padNat 4 y).toList ≠ "the".toList := fun heq => by simp [heq] at hlength
  have hwritten : ("in " ++ padNat 4 y).toList ++ spaced texts =
      "in".toList ++ ' ' :: ((padNat 4 y).toList ++ spaced texts) := by simp
  rw [hwritten, writtenKind_lead (by decide) (not_mem_of_plainDigits (by decide) hdigits)
    (head?_spaced texts), if_neg hthe, if_pos (by simpa using hdigits), if_pos ⟨hlength, hnext⟩]

/-- A point is described with the words of its kind. -/
theorem Point.writtenKind_describe {p : Point} {text : String} (h : p.InRange)
    (htext : p.describe = .ok text) (hnext : firstWord ((spaced texts).drop 1) ∉ plurals) :
    writtenKind (text.toList ++ spaced texts) = (Content.point p).plain.kind := by
  have hend := head?_spaced texts
  cases Content.described (c := .point p) h htext with
  | time clock inverted =>
    have hat : ("at " ++ clock.stamp).toList ++ spaced texts =
        "at".toList ++ ' ' :: (clock.stamp.toList ++ spaced texts) := by simp
    have hfirst : firstWord ("at".toList ++ ' ' :: (clock.stamp.toList ++ spaced texts)) =
        "at".toList := firstWord_append (by decide) (head?_blank _)
    rw [hat, writtenKind, if_pos hfirst]
    rfl
  | @date y m d hdate looped =>
    change writtenKind _ = .date
    have hyear : ' ' ∉ (padNat 4 y).toList :=
      not_mem_of_plainDigits (by decide) fun _ => Text.mem_padNat
    have hdate := @writtenKind_date "on".toList d m _ _ (by decide) hyear hend
    simpa using hdate
  | @dateWithoutYear m d hdate looped =>
    change writtenKind _ = .date
    have hopening := @lead_mem looped "on" (by decide)
    have hdate := @writtenKind_date _ d m [] _ hopening List.not_mem_nil hend
    simpa using hdate
  | monthDay hd looped => exact writtenKind_monthDay looped hd.1 hd.2 texts
  | @weekday n name hn hname looped =>
    have hmem := mem_of_nameOf? hname
    have hnot : ∀ name ∈ weekdayNames, name.toList ∉ monthNames.map String.toList := by decide
    have hwritten : (lead looped "on" ++ " " ++ name).toList ++ spaced texts =
        (lead looped "on").toList ++ ' ' :: (name.toList ++ spaced texts) := by simp
    rw [hwritten,
      writtenKind_name texts (lead_mem looped (by decide)) (List.mem_append_right _ hmem),
      if_neg (hnot name hmem)]
    rfl
  | @month n name hn hname looped =>
    have hmem := mem_of_nameOf? hname
    have hwritten : (lead looped "in" ++ " " ++ name).toList ++ spaced texts =
        (lead looped "in").toList ++ ' ' :: (name.toList ++ spaced texts) := by simp
    rw [hwritten,
      writtenKind_name texts (lead_mem looped (by decide)) (List.mem_append_left _ hmem),
      if_pos (List.mem_map_of_mem hmem)]
    rfl
  | year hy => exact writtenKind_year hy.2 hnext

/-- A count is described by its digits and its unit, in the plural where it has four of them. -/
theorem writtenKind_counts {cs : List (TimeUnit × Int)} {looped : Bool}
    (h : (Span.counts cs looped).InRange) (texts : List String) :
    writtenKind ((lead looped "in" ++ " " ++ " and ".intercalate (cs.map countText)).toList ++
      spaced texts) = .span := by
  obtain ⟨⟨unit, count⟩, hmem, after, hafter, htext⟩ :=
    Recognizer.exists_afterCount h.1 (head?_spaced texts)
  obtain ⟨n, rfl, -⟩ := shortCounts_iff.2 h.2.2 _ hmem
  have hwritten : (lead looped "in" ++ " " ++ " and ".intercalate (cs.map countText)).toList ++
        spaced texts =
      (lead looped "in").toList ++ ' ' :: (Nat.toDigits 10 n ++
        ' ' :: ((Recognizer.unitText unit (n = 1)).toList ++ after)) := by
    have hcount := Recognizer.toList_countText unit n
    simp only [hcount, List.append_assoc, List.cons_append] at htext
    rw [← htext]
    simp
  have hdigits : ∀ c ∈ Nat.toDigits 10 n, c ∈ plainDigits := fun _ => Text.mem_toDigits
  have hthe : Nat.toDigits 10 n ≠ "the".toList := fun heq =>
    absurd (hdigits 't' (by rw [heq]; decide)) (by decide)
  have hunit : ∀ one, ' ' ∉ (Recognizer.unitText unit one).toList := by cases unit <;> decide
  have hplural : (Recognizer.unitText unit false).toList ∈ plurals := by cases unit <;> decide
  have hspan : ¬ ((Nat.toDigits 10 n).length = 4 ∧
      (Recognizer.unitText unit (n = 1)).toList ∉ plurals) := by
    rintro ⟨hlength, hnot⟩
    by_cases hone : n = 1
    · rw [hone] at hlength
      exact absurd hlength (by decide)
    · simp only [hone, decide_false] at hnot
      exact hnot hplural
  rw [hwritten, writtenKind_lead (@lead_mem looped "in" (by decide))
    (not_mem_of_plainDigits (by decide) hdigits) (head?_blank _), if_neg hthe,
    if_pos (by simpa using hdigits), List.drop_one, List.tail_cons,
    firstWord_append (hunit _) hafter, if_neg hspan]

theorem writtenKind_days {count : Nat} (h : count ≤ 2) (texts : List String) :
    writtenKind ((dayText count).toList ++ spaced texts) = .keyword := by
  have hend := head?_spaced texts
  obtain ⟨word, hword, rest, hrest, htext⟩ : ∃ word ∈ ["today", "tomorrow", "day"],
      ∃ rest : List Char, (∀ c ∈ rest.head?, c = ' ') ∧
        (dayText count).toList ++ spaced texts = word.toList ++ rest := by
    obtain rfl | rfl | rfl : count = 0 ∨ count = 1 ∨ count = 2 := by omega
    · exact ⟨"today", by decide, _, hend, rfl⟩
    · exact ⟨"tomorrow", by decide, _, hend, rfl⟩
    · exact ⟨"day", by decide, ' ' :: ("after tomorrow".toList ++ spaced texts),
        head?_blank _, rfl⟩
  have hchars : ∀ word ∈ ["today", "tomorrow", "day"], ' ' ∉ word.toList ∧
      word.toList ≠ "at".toList ∧ word.toList ∉ ["from".toList, "until".toList] ∧
        word.toList ∉ ["on".toList, "in".toList, "every".toList] := by decide
  obtain ⟨hblank, hat, hlimiter, hlead⟩ := hchars word hword
  rw [htext, writtenKind, firstWord_append hblank hrest, if_neg hat, if_neg hlimiter,
    if_neg hlead]

theorem Span.writtenKind_describe {s : Span} {text : String} (h : s.InRange)
    (hwords : (Content.span s).Expressible) (htext : s.describe = .ok text) (texts : List String) :
    writtenKind (text.toList ++ spaced texts) = (Content.span s).plain.kind := by
  cases Content.described (c := .span s) h htext with
  | counts hcs => exact writtenKind_counts hcs texts
  | days count => exact writtenKind_days (Int.ofNat_le.1 hwords) texts

/-- The words of a description are those of its kind, unless the next description seems to begin
with the name of a unit. -/
theorem Part.writtenKind_describe {p : Part} {text : String} (h : p.Recognized)
    (htext : p.describe = .ok text) (hnext : firstWord ((spaced texts).drop 1) ∉ plurals) :
    writtenKind (text.toList ++ spaced texts) = p.plain.kind := by
  cases h with
  | @content c hrange hwords =>
    rw [Part.describe] at htext
    rw [Part.plain]
    cases c with
    | point p => exact Point.writtenKind_describe hrange htext hnext
    | span s => exact Span.writtenKind_describe hrange hwords htext texts
  | limiter side =>
    rw [Part.describe] at htext
    obtain rfl := Except.ok.inj htext
    have hblank : ' ' ∉ side.word.toList := by cases side <;> decide
    rw [writtenKind, firstWord_append hblank (head?_spaced texts)]
    cases side <;> rfl

/-- No description begins with the name of units. -/
theorem firstWord_describe {p : Part} {text : String} (h : p.Recognized)
    (htext : p.describe = .ok text) (texts : List String) :
    firstWord (text.toList ++ spaced texts) ∉ plurals := by
  rcases p.opens h htext with ⟨opening, hopening, hne, hbegin⟩ | ⟨rfl, -⟩
  · intro hplural
    have hlengths : ∀ word ∈ plurals, 2 ≤ word.length := by decide
    have hapart : ∀ word ∈ plurals, ∀ opening ∈ openings, opening ≠ "da".toList →
        ¬ opening <+: word := by decide
    have hfirst : firstWord (text.toList ++ spaced texts) <+: text.toList ++ spaced texts :=
      List.takeWhile_prefix _
    refine hapart _ hplural opening hopening hne ?_
    refine List.prefix_of_prefix_length_le (hbegin.trans (List.prefix_append ..)) hfirst ?_
    rw [length_opening opening hopening]
    exact hlengths _ hplural
  · rw [Part.describe] at htext
    obtain rfl := Except.ok.inj htext
    have hday : firstWord ("day".toList ++ ' ' :: ("after tomorrow".toList ++ spaced texts)) =
        "day".toList := firstWord_append (by decide) (head?_blank _)
    have hnot : "day".toList ∉ plurals := by decide
    exact fun hplural => hnot (hday ▸ hplural)

end Written

end TimePhrase
