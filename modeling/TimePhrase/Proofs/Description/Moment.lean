import TimePhrase.Display.Moment
import TimePhrase.Proofs.Description.Kind

/-!
# Instants told relative to a day

What is told of an instant determines its date, its hour and its minute. The first word tells the
three forms apart, since no weekday has the name of a month. The weekday is enough within the week
after the day, as no two of these six days share it, and on a clock of twelve hours the half of
the day settles what the number of the hour leaves open.
-/

namespace TimePhrase

/-- The number of a name is read off a list that has the name once. -/
theorem nameOf?_inj {names : List String} {n m : Int} {name : String} (hnodup : names.Nodup)
    (hn : 1 ≤ n) (hm : 1 ≤ m) (h : nameOf? names n = some name) (h' : nameOf? names m = some name) :
    n = m := by
  unfold nameOf? at h h'
  split at h
  · split at h'
    · rw [Int.emod_eq_of_lt (by omega) (by omega)] at h h'
      have hindex : (n - 1).toNat = (m - 1).toNat :=
        (List.getElem?_inj (by omega) hnodup).1 (h.trans h'.symm)
      omega
    · cases h'
  · cases h

theorem isDigit_head? {c : Char} (hc : c.isDigit = false) (rest : List Char) :
    ∀ d ∈ (c :: rest).head?, d.isDigit = false :=
  fun _ hd => Option.some.inj hd ▸ hc

namespace DateTime

variable {t u : DateTime}

section Clock

/-- The letter that tells the half of the day. -/
def half (t : DateTime) : Char := if t.hour.val < 12 then 'a' else 'p'

theorem isDigit_half (t : DateTime) : t.half.isDigit = false := by
  unfold half
  split <;> rfl

theorem half_ne_colon (t : DateTime) : t.half ≠ ':' := by
  unfold half
  split <;> decide

theorem hour_eq_of_hourOnDial (hdial : hourOnDial t.hour = hourOnDial u.hour)
    (hhalf : t.half = u.half) : t.hour = u.hour := by
  have ht := t.hour.isLt
  have hu := u.hour.isLt
  have hsame : t.hour.val < 12 ↔ u.hour.val < 12 := by
    unfold half at hhalf
    by_cases ht : t.hour.val < 12 <;> by_cases hu : u.hour.val < 12 <;> simp [ht, hu] at hhalf ⊢
  unfold hourOnDial at hdial
  refine Fin.ext ?_
  split at hdial <;> split at hdial <;> omega

/-- The minutes that a clock of twelve hours shows. -/
def minutesShown (t : DateTime) : List Char :=
  if t.minute.val = 0 then [] else ':' :: (Text.padNat 2 t.minute).toList

theorem toList_displayClock (t : DateTime) : (t.displayClock true).toList =
    (toString (hourOnDial t.hour)).toList ++ (t.minutesShown ++ [t.half, 'm']) := by
  unfold displayClock minutesShown half
  by_cases hminute : t.minute.val = 0 <;> by_cases hhour : t.hour.val < 12 <;>
    simp [hminute, hhour]

/-- What stands behind the hour begins with no digit. -/
theorem isDigit_head?_minutesShown (t : DateTime) :
    ∀ c ∈ (t.minutesShown ++ [t.half, 'm']).head?, c.isDigit = false := by
  unfold minutesShown
  split
  · exact isDigit_head? t.isDigit_half ['m']
  · exact isDigit_head? rfl _

/-- The minute and the half of the day are read off what stands behind the hour. -/
theorem minutesShown_inj
    (h : t.minutesShown ++ [t.half, 'm'] = u.minutesShown ++ [u.half, 'm']) :
    t.minute = u.minute ∧ t.half = u.half := by
  unfold minutesShown at h
  by_cases ht : t.minute.val = 0 <;> by_cases hu : u.minute.val = 0
  · rw [if_pos ht, if_pos hu] at h
    exact ⟨Fin.ext (ht.trans hu.symm), (List.cons.inj h).1⟩
  · rw [if_pos ht, if_neg hu] at h
    exact absurd (List.cons.inj h).1 t.half_ne_colon
  · rw [if_neg ht, if_pos hu] at h
    exact absurd (List.cons.inj h).1.symm u.half_ne_colon
  · rw [if_neg ht, if_neg hu] at h
    obtain ⟨hminute, hrest⟩ := Text.padNat_append_inj (by decide) (by omega) (by omega)
      (List.cons.inj h).2
    exact ⟨Fin.ext hminute, (List.cons.inj hrest).1⟩

/-- The hour and the minute are read off the clock. -/
theorem displayClock_inj {twelveHours : Bool}
    (h : t.displayClock twelveHours = u.displayClock twelveHours) :
    t.hour = u.hour ∧ t.minute = u.minute := by
  have hlist := congrArg String.toList h
  cases twelveHours with
  | false =>
    have hclock : t.timeOfDay = u.timeOfDay :=
      @stamp_inj _ _ [] [] (congrArg (· ++ []) hlist)
    exact TimeOfDay.mk.inj hclock
  | true =>
    rw [toList_displayClock, toList_displayClock] at hlist
    obtain ⟨hdial, hbehind⟩ := Text.number_append_inj t.isDigit_head?_minutesShown
      u.isDigit_head?_minutesShown hlist
    obtain ⟨hminute, hhalf⟩ := minutesShown_inj hbehind
    exact ⟨hour_eq_of_hourOnDial hdial hhalf, hminute⟩

end Clock

section Day

variable {today : Date} {word : String} {between between' rest rest' : List Char}

/-- What is told of the day of an instant: a word, and what stands between it and the time. -/
inductive ToldAs (t : DateTime) (today : Date) : String → List Char → Prop
  | today (h : t.date = today) : ToldAs t today "today" []
  | weekday {name : String} (hlow : today.toDays < t.date.toDays)
    (hhigh : t.date.toDays ≤ today.toDays + 6) (hname : nameOf? weekdayNames t.weekday = some name) :
    ToldAs t today name []
  | date {name : String} (hname : nameOf? monthNames t.date.month = some name) :
    ToldAs t today name
      ((toString t.date.day).toList ++ ',' :: ' ' :: ((toString t.date.year).toList ++ [' ']))

theorem exists_toldAs (t : DateTime) (twelveHours : Bool) (today : Date) :
    ∃ word between, t.ToldAs today word between ∧ (t.display twelveHours today).toList =
      word.toList ++ ' ' :: (between ++ "at ".toList ++ (t.displayClock twelveHours).toList) := by
  have hweekday := t.date.weekday_bounds
  have hmonth := t.date.month_bounds
  by_cases htoday : (t.date.toDays : Int) - today.toDays = 0
  · have htext : t.display twelveHours today =
        "today" ++ " at " ++ t.displayClock twelveHours := by
      rw [display, if_pos htoday]
      rfl
    exact ⟨"today", [], .today (Date.eq_of_toDays_eq (by omega)), by simp [htext]⟩
  by_cases hweek : 0 < (t.date.toDays : Int) - today.toDays ∧
      (t.date.toDays : Int) - today.toDays ≤ 6
  · obtain ⟨name, hname⟩ : ∃ name, nameOf? weekdayNames t.weekday = some name :=
      nameOf?_isSome weekdayNames ⟨Int.ofNat_le.2 hweekday.1, Int.ofNat_le.2 hweekday.2⟩
    have htext : t.display twelveHours today =
        name ++ " at " ++ t.displayClock twelveHours := by
      rw [display, if_neg htoday, if_pos hweek, hname]
      rfl
    exact ⟨name, [], .weekday (by omega) (by omega) hname, by simp [htext]⟩
  · obtain ⟨name, hname⟩ : ∃ name, nameOf? monthNames t.date.month = some name :=
      nameOf?_isSome monthNames ⟨Int.ofNat_le.2 hmonth.1, Int.ofNat_le.2 hmonth.2⟩
    have htext : t.display twelveHours today = name ++ " " ++ toString t.date.day ++ ", " ++
        toString t.date.year ++ " at " ++ t.displayClock twelveHours := by
      rw [display, if_neg htoday, if_neg hweek, hname]
      rfl
    exact ⟨name, _, .date hname, by simp [htext]⟩

theorem ToldAs.blank_not_mem (h : t.ToldAs today word between) : ' ' ∉ word.toList := by
  cases h with
  | today => decide
  | weekday _ _ hname => exact (name_chars word (List.mem_append_right _ (mem_of_nameOf? hname))).1
  | date hname => exact (name_chars word (List.mem_append_left _ (mem_of_nameOf? hname))).1

/-- The same word and the same text behind it tell the same day. -/
theorem ToldAs.date_eq (ht : t.ToldAs today word between) (hu : u.ToldAs today word between')
    (h : between ++ 'a' :: rest = between' ++ 'a' :: rest') : t.date = u.date ∧ rest = rest' := by
  have hweekdays : "today" ∉ weekdayNames := by decide
  have hmonths : "today" ∉ monthNames := by decide
  have hnames : ∀ name ∈ weekdayNames, name ∉ monthNames := by decide
  cases ht with
  | today hdate =>
    cases hu with
    | today hdate' => exact ⟨hdate.trans hdate'.symm, (List.cons.inj h).2⟩
    | weekday _ _ hname => exact absurd (mem_of_nameOf? hname) hweekdays
    | date hname => exact absurd (mem_of_nameOf? hname) hmonths
  | weekday hlow hhigh hname =>
    cases hu with
    | today => exact absurd (mem_of_nameOf? hname) hweekdays
    | date hname' => exact absurd (mem_of_nameOf? hname') (hnames _ (mem_of_nameOf? hname))
    | weekday hlow' hhigh' hname' =>
      have hweekday := nameOf?_inj (by decide) (Int.ofNat_le.2 t.date.weekday_bounds.1)
        (Int.ofNat_le.2 u.date.weekday_bounds.1) hname hname'
      -- Two of six days in a row that share their weekday are one day.
      have hdays : t.date.toDays = u.date.toDays := by
        unfold weekday Date.weekday at hweekday
        omega
      exact ⟨Date.eq_of_toDays_eq hdays, (List.cons.inj h).2⟩
  | date hname =>
    cases hu with
    | today => exact absurd (mem_of_nameOf? hname) hmonths
    | weekday _ _ hname' => exact absurd (mem_of_nameOf? hname) (hnames _ (mem_of_nameOf? hname'))
    | date hname' =>
      have hmonth := nameOf?_inj (by decide) (Int.ofNat_le.2 t.date.month_bounds.1)
        (Int.ofNat_le.2 u.date.month_bounds.1) hname hname'
      simp only [List.append_assoc, List.cons_append] at h
      obtain ⟨hday, hbehind⟩ :=
        Text.number_append_inj (isDigit_head? rfl _) (isDigit_head? rfl _) h
      obtain ⟨hyear, htime⟩ := Text.number_append_inj (isDigit_head? rfl _) (isDigit_head? rfl _)
        (List.cons.inj (List.cons.inj hbehind).2).2
      refine ⟨Date.ext_of_monthIndex ?_ hday, (List.cons.inj (List.cons.inj htime).2).2⟩
      unfold Date.monthIndex
      omega

/-- What is told of an instant on a day tells its date, its hour and its minute. -/
theorem display_eq_iff (t u : DateTime) (twelveHours : Bool) (today : Date) :
    t.display twelveHours today = u.display twelveHours today ↔
      t.date = u.date ∧ t.hour = u.hour ∧ t.minute = u.minute := by
  constructor
  · intro h
    obtain ⟨word, between, ht, htext⟩ := t.exists_toldAs twelveHours today
    obtain ⟨word', between', hu, hutext⟩ := u.exists_toldAs twelveHours today
    have hlist := htext.symm.trans ((congrArg String.toList h).trans hutext)
    have hword := congrArg firstWord hlist
    rw [firstWord_append ht.blank_not_mem (head?_blank _),
      firstWord_append hu.blank_not_mem (head?_blank _)] at hword
    obtain rfl := String.toList_inj.1 hword
    have hrest := (List.cons.inj (List.append_cancel_left hlist)).2
    simp only [List.append_assoc] at hrest
    obtain ⟨hdate, hclock⟩ := ht.date_eq hu hrest
    exact ⟨hdate, displayClock_inj (String.toList_inj.1 (List.append_cancel_left hclock))⟩
  · rintro ⟨hdate, hhour, hminute⟩
    have hclock : t.displayClock twelveHours = u.displayClock twelveHours := by
      unfold displayClock timeOfDay
      rw [hhour, hminute]
    unfold display weekday
    rw [hclock, hdate]

end Day

end DateTime

end TimePhrase
