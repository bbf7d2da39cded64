import Mathlib.Algebra.Group.Nat.Defs
import TimePhrase.Part.Describe
import TimePhrase.Proofs.Calendar.Date
import TimePhrase.Proofs.Outcome

/-!
# Parts with numbers that exist

The type of parts allows any number in any place. A part is in range if its numbers are those
of a real day, month or year, and if its counts are of distinct units from coarse to fine and have
no more digits than are read. Such a part has a description.
-/

namespace TimePhrase

open Text (padInt padNat)

namespace Point

/-- The numbers of the point are those of a day, a month or a year that exists. A date without
a year has to exist in leap years. -/
def InRange : Point → Prop
  | time .. => True
  | date d m y _ => (Date.of? (y.getD 2000) m d).isSome = true
  | monthDay d _ => 1 ≤ d ∧ d ≤ 31
  | weekday n _ => 1 ≤ n ∧ n ≤ 7
  | month m _ => 1 ≤ m ∧ m ≤ 12
  | year y => 1 ≤ y ∧ y ≤ 9999

instance : (p : Point) → Decidable p.InRange
  | time .. => isTrue trivial
  | date .. => inferInstanceAs (Decidable (_ = true))
  | monthDay .. | weekday .. | month .. | year _ => inferInstanceAs (Decidable (_ ∧ _))

end Point

namespace Span

/-- The span has counts of distinct units from coarse to fine, none of them negative and none with
more digits than are read. -/
def InRange : Span → Prop
  | counts cs _ => cs ≠ [] ∧ (cs.map (·.1.rank)).Pairwise (· < ·) ∧
      ∀ c ∈ cs, 0 ≤ c.2 ∧ c.2.natAbs < 10 ^ Text.maxDigits
  | days count => 0 ≤ count ∧ count.natAbs < 10 ^ Text.maxDigits

/-- A span has all the counts that it is made from. -/
theorem mem_sortedCounts {found : List (TimeUnit × Int)} {c : TimeUnit × Int} :
    c ∈ TimeUnit.all.flatMap (fun u => found.filter (·.1 = u)) ↔ c ∈ found := by
  simp only [List.mem_flatMap, List.mem_filter, decide_eq_true_eq]
  exact ⟨fun ⟨_, _, hc, _⟩ => hc, fun hc => ⟨c.1, by cases c.1 <;> decide, hc, rfl⟩⟩

end Span

namespace Content

@[inherit_doc Point.InRange]
def InRange : Content → Prop
  | point p => p.InRange
  | span s => s.InRange

end Content

/-- All content of the part, that of its limit included, is in range. -/
inductive Part.InRange : Part → Prop
  | content {c : Content} (h : c.InRange) : InRange (.content c)
  | bare (side : Side) : InRange (.limiter side none)
  | limit {side : Side} {parts : List Part} (h : ∀ p ∈ parts, InRange p) :
    InRange (.limiter side (some parts))

theorem nameOf?_isSome (names : List String) {number : Int}
    (h : 1 ≤ number ∧ number ≤ names.length) : ∃ name, nameOf? names number = some name := by
  obtain ⟨hfirst, hlast⟩ := h
  have hindex : ((number - 1) % names.length).toNat < names.length := by
    rw [Int.emod_eq_of_lt (by omega) (by omega)]
    omega
  refine ⟨names[((number - 1) % names.length).toNat], ?_⟩
  rw [nameOf?, if_pos (by omega), List.getElem?_eq_getElem hindex]

theorem exists_isDate {y m d : Int} (h : (Date.of? y m d).isSome = true) :
    ∃ y' m' d' : Nat, y = y' ∧ m = m' ∧ d = d' ∧ IsDate y' m' d' := by
  unfold Date.of? at h
  split at h
  · rename_i hdate
    obtain ⟨hy, hm, hd, hdate⟩ := hdate
    exact ⟨y.toNat, m.toNat, d.toNat, by omega, by omega, by omega, hdate⟩
  · cases h

theorem day_le_of_isDate {y m d : Nat} (h : IsDate y m d) : d ≤ 31 := by
  obtain ⟨-, -, hm, hm', -, hd⟩ := h
  have := (daysInMonth_bounds y ⟨hm, hm'⟩).2
  omega

section Numerals

variable {form : Int → String} {n : Int}

theorem numeral_eq_ok_iff {text : String} :
    numeral form n = .ok text ↔ n.natAbs < 10 ^ Text.maxDigits ∧ form n = text := by
  have hdigits := Nat.length_toDigits_le_iff (b := 10) (n := n.natAbs) (by decide)
    (by decide : 0 < Text.maxDigits)
  simp only [numeral, ← hdigits]
  split
  · simp only [reduceCtorEq, false_iff]
    omega
  · simp only [Except.ok.injEq, iff_and_self]
    omega

/-- A number is written if it has no more digits than are read. -/
theorem numeral_eq_ok (h : n.natAbs < 10 ^ Text.maxDigits) : numeral form n = .ok (form n) :=
  numeral_eq_ok_iff.2 ⟨h, rfl⟩

theorem numeral_eq_error (h : 10 ^ Text.maxDigits ≤ n.natAbs) :
    numeral form n = .error (.numberTooLong (Nat.toDigits 10 n.natAbs).length) := by
  have hdigits := Nat.length_toDigits_le_iff (b := 10) (n := n.natAbs) (by decide)
    (by decide : 0 < Text.maxDigits)
  rw [numeral, if_pos (by omega)]

/-- The numbers of the calendar have no more digits than are written. -/
theorem lt_pow_maxDigits {n : Nat} (h : n < 10 ^ 4) : n < 10 ^ Text.maxDigits :=
  Nat.lt_of_lt_of_le h (Nat.pow_le_pow_right (by decide) (by decide))

theorem numeral_of_lt (h : n.natAbs < 10 ^ 4) : numeral form n = .ok (form n) :=
  numeral_eq_ok (lt_pow_maxDigits h)

end Numerals

section Writing

variable {α β : Type} {numbers others : List Int} {description : Except Undescribed α}
  {rest : α → Except Undescribed β}

/-- None of the numbers has more digits than are written. -/
def AllShort (numbers : List Int) : Prop := ∀ n ∈ numbers, n.natAbs < 10 ^ Text.maxDigits

/-- A description in which the numbers are written. It exists if all of them are short enough, and
otherwise fails for a number of too many digits. -/
def Writes (numbers : List Int) (description : Except Undescribed α) : Prop :=
  (AllShort numbers ∧ ∃ a, description = .ok a) ∨
    (¬ AllShort numbers ∧ ∃ digits, description = .error (.numberTooLong digits))

theorem writes_ok (a : α) : Writes [] (Except.ok (ε := Undescribed) a) := .inl ⟨nofun, a, rfl⟩

theorem writes_numeral (form : Int → String) (n : Int) : Writes [n] (numeral form n) := by
  have hshort : AllShort [n] ↔ n.natAbs < 10 ^ Text.maxDigits := List.forall_mem_singleton
  rcases Nat.lt_or_ge n.natAbs (10 ^ Text.maxDigits) with h | h
  · exact .inl ⟨hshort.2 h, _, numeral_eq_ok h⟩
  · exact .inr ⟨fun hall => Nat.not_lt.2 h (hshort.1 hall), _, numeral_eq_error h⟩

theorem Writes.bind (h : Writes numbers description)
    (hrest : ∀ a, description = .ok a → Writes others (rest a)) :
    Writes (numbers ++ others) (description >>= rest) := by
  have happend : AllShort (numbers ++ others) ↔ AllShort numbers ∧ AllShort others :=
    List.forall_mem_append
  rcases h with ⟨hnumbers, a, rfl⟩ | ⟨hnumbers, digits, rfl⟩
  · rcases hrest a rfl with ⟨hothers, result⟩ | ⟨hothers, result⟩
    · exact .inl ⟨happend.2 ⟨hnumbers, hothers⟩, result⟩
    · exact .inr ⟨fun hall => hothers (happend.1 hall).2, result⟩
  · exact .inr ⟨fun hall => hnumbers (happend.1 hall).1, digits, rfl⟩

theorem Writes.map (h : Writes numbers description) (f : α → β) :
    Writes numbers (description >>= fun a => pure (f a)) := by
  rw [← List.append_nil numbers]
  exact h.bind fun a _ => writes_ok (f a)

theorem writes_mapM {number : α → Int} {describe : α → Except Undescribed β} {items : List α}
    (h : ∀ item ∈ items, Writes [number item] (describe item)) :
    Writes (items.map number) (items.mapM describe) := by
  induction items with
  | nil => exact writes_ok []
  | cons item items ih =>
    obtain ⟨hitem, hitems⟩ := List.forall_mem_cons.1 h
    rw [List.mapM_cons]
    exact hitem.bind fun text _ => (ih hitems).map _

end Writing

/-- A single count of a few digits makes a span in range. -/
theorem Span.inRange_counts_singleton {count : Int} (h : 0 ≤ count ∧ count.natAbs < 10 ^ 4)
    (unit : TimeUnit) (looped : Bool) : (counts [(unit, count)] looped).InRange :=
  ⟨List.cons_ne_nil _ _, List.pairwise_singleton _ _,
    List.forall_mem_singleton.2 ⟨h.1, lt_pow_maxDigits h.2⟩⟩

theorem nameOf_eq_ok_iff {names : List String} {number : Int} {name : String} :
    nameOf names number = .ok name ↔ nameOf? names number = some name := by
  rw [nameOf]
  split <;> simp_all

theorem padInt_natCast (width n : Nat) : padInt width n = padNat width n := by
  rw [padInt, if_neg (by omega), Int.natAbs_natCast]

section Numbers

variable {y m d : Nat}

theorem numeral_day (h : IsDate y m d) : numeral (padInt 2) d = .ok (padNat 2 d) := by
  have := day_le_of_isDate h
  rw [numeral_of_lt (by omega), padInt_natCast]

theorem numeral_month (h : IsDate y m d) : numeral (padInt 2) m = .ok (padNat 2 m) := by
  have := h.2.2.2.1
  rw [numeral_of_lt (by omega), padInt_natCast]

theorem numeral_year (h : y ≤ 9999) : numeral (padInt 4) y = .ok (padNat 4 y) := by
  rw [numeral_of_lt (by omega), padInt_natCast]

end Numbers

/-- The numbers that are written in the description of the point. -/
def Point.numbers : Point → List Int
  | date d m y _ => d :: m :: y.toList
  | monthDay d _ => [d]
  | year y => [y]
  | time .. | weekday .. | month .. => []

/-- The numbers that are written in the description of the span. -/
def Span.numbers : Span → List Int
  | counts cs _ => cs.map (·.2)
  | days count => [count]

theorem Span.writes_describe : (s : Span) → Writes s.numbers s.describe
  | counts _ _ => (writes_mapM fun c _ => writes_numeral _ c.2).map _
  | days count => writes_numeral dayText count

/-- The numbers that are written in the description of the content. -/
def Content.numbers : Content → List Int
  | point p => p.numbers
  | span s => s.numbers

/-- The numbers that are written in the description of content. Those of a limit are left out. -/
def Part.numbers : Part → List Int
  | content c => c.numbers
  | limiter .. => []

/-- Counts that are short enough are described, with the word "and" between them. -/
theorem Span.describe_counts {cs : List (TimeUnit × Int)}
    (h : ∀ c ∈ cs, c.2.natAbs < 10 ^ Text.maxDigits) (looped : Bool) :
    (counts cs looped).describe =
      .ok (lead looped "in" ++ " " ++ " and ".intercalate (cs.map countText)) := by
  have htexts : cs.mapM (fun c => numeral (fun n => countText (c.1, n)) c.2) =
      .ok (cs.map countText) := by
    induction cs with
    | nil => rfl
    | cons c cs ih =>
      obtain ⟨hc, hcs⟩ := List.forall_mem_cons.1 h
      rw [List.mapM_cons, numeral_eq_ok hc, ih hcs]
      rfl
  exact bind_eq_ok_iff.2 ⟨_, htexts, rfl⟩

namespace Content

/-- How content with numbers that exist is described. Dates have two digits for the day, two for the
month and four for the year. -/
inductive Described : Content → String → Prop
  | time (clock : TimeOfDay) (inverted : Bool) :
    Described (.point (.time clock inverted)) ("at " ++ clock.stamp)
  | date {y m d : Nat} (h : IsDate y m d) (looped : Bool) :
    Described (.point (.date d m (some (y : Int)) looped))
      ("on " ++ padNat 2 d ++ "." ++ padNat 2 m ++ "." ++ padNat 4 y)
  | dateWithoutYear {m d : Nat} (h : IsDate 2000 m d) (looped : Bool) :
    Described (.point (.date d m none looped))
      (lead looped "on" ++ " " ++ padNat 2 d ++ "." ++ padNat 2 m ++ ".")
  | monthDay {d : Nat} (h : 1 ≤ d ∧ d ≤ 31) (looped : Bool) :
    Described (.point (.monthDay d looped)) (lead looped "on the" ++ " " ++ ordinal d)
  | weekday {n : Int} {name : String} (h : 1 ≤ n ∧ n ≤ 7)
    (hname : nameOf? weekdayNames n = some name) (looped : Bool) :
    Described (.point (.weekday n looped)) (lead looped "on" ++ " " ++ name)
  | month {n : Int} {name : String} (h : 1 ≤ n ∧ n ≤ 12)
    (hname : nameOf? monthNames n = some name) (looped : Bool) :
    Described (.point (.month n looped)) (lead looped "in" ++ " " ++ name)
  | year {y : Nat} (h : 1 ≤ y ∧ y ≤ 9999) :
    Described (.point (.year y)) ("in " ++ padNat 4 y)
  | counts {cs : List (TimeUnit × Int)} {looped : Bool} (h : (Span.counts cs looped).InRange) :
    Described (.span (.counts cs looped))
      (lead looped "in" ++ " " ++ " and ".intercalate (cs.map countText))
  | days (count : Nat) : Described (.span (.days count)) (dayText count)

variable {c : Content} {text : String}

theorem exists_described (h : c.InRange) : ∃ text, c.describe = .ok text ∧ c.Described text := by
  rcases c with (⟨clock, inverted⟩ | ⟨d, m, y, looped⟩ | ⟨d, looped⟩ | ⟨n, looped⟩ |
    ⟨n, looped⟩ | y) | (⟨cs, looped⟩ | count)
  · exact ⟨_, rfl, .time clock inverted⟩
  · obtain ⟨year, month, day, hyear, rfl, rfl, hdate⟩ := exists_isDate h
    cases y with
    | none =>
      obtain rfl : 2000 = year := Int.ofNat_inj.1 hyear
      refine ⟨_, ?_, .dateWithoutYear hdate looped⟩
      simp only [describe, Point.describe, numeral_day hdate, numeral_month hdate, ok_bind,
        pure_eq_ok, String.append_assoc]
      rfl
    | some y =>
      obtain rfl : y = year := hyear
      refine ⟨_, ?_, .date hdate looped⟩
      simp only [describe, Point.describe, numeral_day hdate, numeral_month hdate,
        numeral_year hdate.2.1, ok_bind, pure_eq_ok]
      rfl
  · obtain ⟨hfirst, hlast⟩ : 1 ≤ d ∧ d ≤ 31 := h
    obtain ⟨d, rfl⟩ := Int.eq_ofNat_of_zero_le (by omega : 0 ≤ d)
    refine ⟨_, ?_, .monthDay ⟨by omega, by omega⟩ looped⟩
    rw [describe, Point.describe, numeral_of_lt (by omega)]
    rfl
  · obtain ⟨name, hname⟩ := nameOf?_isSome weekdayNames h
    refine ⟨_, ?_, .weekday h hname looped⟩
    rw [describe, Point.describe, nameOf_eq_ok_iff.2 hname]
    rfl
  · obtain ⟨name, hname⟩ := nameOf?_isSome monthNames h
    refine ⟨_, ?_, .month h hname looped⟩
    rw [describe, Point.describe, nameOf_eq_ok_iff.2 hname]
    rfl
  · obtain ⟨hfirst, hlast⟩ : 1 ≤ y ∧ y ≤ 9999 := h
    obtain ⟨y, rfl⟩ := Int.eq_ofNat_of_zero_le (by omega : 0 ≤ y)
    refine ⟨_, ?_, .year ⟨by omega, by omega⟩⟩
    rw [describe, Point.describe, numeral_year (by omega)]
    rfl
  · exact ⟨_, Span.describe_counts (fun c hc => (h.2.2 c hc).2) looped, .counts h⟩
  · obtain ⟨count, rfl⟩ := Int.eq_ofNat_of_zero_le h.1
    exact ⟨_, numeral_eq_ok h.2, .days count⟩

theorem exists_describe (h : c.InRange) : ∃ text, c.describe = .ok text :=
  (exists_described h).imp fun _ => And.left

/-- The description of content in range has one of the forms. -/
theorem described (h : c.InRange) (htext : c.describe = .ok text) : c.Described text := by
  obtain ⟨other, hother, hdescribed⟩ := exists_described h
  rwa [Except.ok.inj (htext.symm.trans hother)]

end Content

theorem describeAll_nil : describeAll [] = .ok [] := by
  rw [describeAll]
  rfl

theorem exists_describeAll {parts : List Part} (h : ∀ p ∈ parts, ∃ text, p.describe = .ok text) :
    ∃ texts, describeAll parts = .ok texts := by
  induction parts with
  | nil => exact ⟨[], describeAll_nil⟩
  | cons p rest ih =>
    obtain ⟨text, htext⟩ := h p (List.mem_cons_self ..)
    obtain ⟨texts, htexts⟩ := ih fun q hq => h q (List.mem_cons_of_mem _ hq)
    exact ⟨text :: texts, by rw [describeAll, htext, htexts]; rfl⟩

/-- Parts are described by the descriptions of each in turn. -/
theorem writes_describeAll {parts : List Part} {numbers : Part → List Int}
    (h : ∀ p ∈ parts, Writes (numbers p) p.describe) :
    Writes (parts.flatMap numbers) (describeAll parts) := by
  induction parts with
  | nil => exact describeAll_nil ▸ writes_ok []
  | cons p rest ih =>
    obtain ⟨hp, hrest⟩ := List.forall_mem_cons.1 h
    rw [describeAll, List.flatMap_cons]
    exact hp.bind fun text _ => (ih hrest).map _

/-- A part in range has a description. -/
theorem Part.InRange.exists_describe {p : Part} (h : p.InRange) :
    ∃ text, p.describe = .ok text := by
  induction h with
  | content h =>
    obtain ⟨text, htext⟩ := Content.exists_describe h
    exact ⟨text, by rw [Part.describe, htext]⟩
  | bare side => exact ⟨side.word, by rw [Part.describe]; rfl⟩
  | @limit side parts h ih =>
    cases parts with
    | nil => exact ⟨side.word, by rw [Part.describe]; rfl⟩
    | cons p rest =>
      obtain ⟨text, htext⟩ := ih p (List.mem_cons_self ..)
      obtain ⟨texts, htexts⟩ := exists_describeAll fun q hq => ih q (List.mem_cons_of_mem _ hq)
      exact ⟨_, by rw [Part.describe, htext, htexts]; rfl⟩

end TimePhrase
