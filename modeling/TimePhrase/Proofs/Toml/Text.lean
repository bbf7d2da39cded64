import Mathlib.Data.Bool.AllAny
import Mathlib.Data.List.TakeWhile
import TimePhrase.Proofs.Outcome
import TimePhrase.Toml.Text

/-!
# Strings that stand for themselves

A string in double quotes says what stands between the quotes only if that has no quote, no
backslash and no control character. Here both directions are proved. A text of this kind is
read back; and if any text between quotes is read back as it stands, then it is of this kind,
provided that something behind it in the document begins with a character that no escape
takes away: reading beyond the closing quote would bring this character into the string.
-/

namespace TimePhrase.Toml

variable {α β : Type} {cs rest raw raw' content content' : List Char} {c : Char} {fuel : Nat}

@[simp] theorem malformed_ne_ok (a : α) : (malformed : Except Fault α) ≠ .ok a := nofun

@[simp] theorem malformed_bind (f : α → Except Fault β) :
    ((malformed : Except Fault α) >>= f) = malformed := rfl

/-! ## What is read back -/

/-- The text says between double quotes what it is. -/
def Verbatim (text : List Char) : Prop :=
  ∀ c ∈ text, c ≠ '"' ∧ c ≠ '\\' ∧ isControl c = false

instance (text : List Char) : Decidable (Verbatim text) :=
  List.decidableBAll _ text

theorem verbatim_nil : Verbatim [] := by simp [Verbatim]

theorem verbatim_cons :
    Verbatim (c :: cs) ↔ (c ≠ '"' ∧ c ≠ '\\' ∧ isControl c = false) ∧ Verbatim cs :=
  List.forall_mem_cons

theorem takeBasic_verbatim (h : Verbatim content) (hfuel : content.length < fuel) :
    takeBasic fuel (content ++ '"' :: rest) = .ok (content, rest) := by
  induction content generalizing fuel with
  | nil =>
    obtain ⟨fuel, rfl⟩ : ∃ n, fuel = n + 1 := ⟨fuel - 1, by simp at hfuel; omega⟩
    simp [takeBasic]
  | cons c content ih =>
    obtain ⟨fuel, rfl⟩ : ∃ n, fuel = n + 1 := ⟨fuel - 1, by simp at hfuel; omega⟩
    obtain ⟨⟨hquote, hbackslash, hcontrol⟩, hcontent⟩ := verbatim_cons.1 h
    simp [takeBasic, hquote, hbackslash, hcontrol,
      ih hcontent (by simp at hfuel; omega)]

theorem takeString_of_one (h : ∀ rest, cs ≠ '"' :: '"' :: rest) :
    takeString ('"' :: cs) =
      (takeBasic (cs.length + 1) cs >>= fun p => .ok (String.ofList p.1, p.2)) := by
  unfold takeString
  split <;> simp_all

theorem takeString_of_three :
    takeString ('"' :: '"' :: '"' :: cs) =
      (takeBasicLines (cs.length + 3) (skipFirstLineEnd cs) >>=
        fun p => .ok (String.ofList p.1, p.2)) := by
  simp [takeString]

/-- A text that says what it is, is read back. Two quotes on their own are the empty string
only if no third one follows. -/
theorem takeString_verbatim (h : Verbatim content) (hrest : rest.head? ≠ some '"') :
    takeString ('"' :: (content ++ '"' :: rest)) = .ok (String.ofList content, rest) := by
  have hone : ∀ other, content ++ '"' :: rest ≠ '"' :: '"' :: other := by
    rintro other heq
    cases content with
    | nil => simp_all
    | cons c content => exact (verbatim_cons.1 h).1.1 (List.head_eq_of_cons_eq heq)
  rw [takeString_of_one hone, takeBasic_verbatim h (by rw [List.length_append]; omega), ok_bind]

/-! ## What reading does not lose -/

/-- The character stands in a string only for itself. -/
def isMark (c : Char) : Bool := c = ',' || c = '[' || c = '#'

theorem isMark_iff : isMark c = true ↔ c = ',' ∨ c = '[' ∨ c = '#' := by
  simp [isMark, or_assoc]

/-- The raw text of a string is no shorter than what it says, and has none of the marks that
this does not have. -/
structure Covers (raw content : List Char) : Prop where
  length_le : content.length ≤ raw.length
  count_le : ∀ m, isMark m = true → raw.count m ≤ content.count m

theorem Covers.rfl : Covers raw raw := ⟨Nat.le_refl _, fun _ _ => Nat.le_refl _⟩

theorem Covers.cons (h : Covers raw content) : Covers (c :: raw) (c :: content) where
  length_le := by simpa using h.length_le
  count_le m hm := by simpa [List.count_cons] using h.count_le m hm

theorem Covers.append (h : Covers raw content) (h' : Covers raw' content') :
    Covers (raw ++ raw') (content ++ content') where
  length_le := by simpa using Nat.add_le_add h.length_le h'.length_le
  count_le m hm := by simpa using Nat.add_le_add (h.count_le m hm) (h'.count_le m hm)

/-- Raw text without marks may stand for anything that is not longer. -/
theorem Covers.of_no_mark (h : ∀ c ∈ raw, isMark c = false)
    (hlength : content.length ≤ raw.length) : Covers raw content where
  length_le := hlength
  count_le m hm := by
    have hnot : m ∉ raw := fun hmem => by simp [h m hmem] at hm
    simp [List.count_eq_zero.2 hnot]

theorem forall_of_foldlM {f : β → α → Option β} {p : α → Prop}
    (hstep : ∀ b b' a, f b a = some b' → p a) {as : List α} {b b' : β}
    (h : as.foldlM f b = some b') : ∀ a ∈ as, p a := by
  induction as generalizing b with
  | nil => simp
  | cons a as ih =>
    rw [List.foldlM_cons] at h
    obtain ⟨next, hnext, h⟩ := Option.bind_eq_some_iff.1 h
    exact List.forall_mem_cons.2 ⟨hstep _ _ _ hnext, ih h⟩

theorem not_isMark_of_hexValue? {digits : List Char} {n : Nat} (h : hexValue? digits = some n) :
    ∀ c ∈ digits, isMark c = false := by
  refine forall_of_foldlM (fun n n' c hc => ?_) h
  refine Bool.eq_false_iff.2 fun hmark => ?_
  rcases isMark_iff.1 hmark with rfl | rfl | rfl <;> simp at hc

theorem not_isMark_of_numbered? {digits : List Char} (h : numbered? digits = some c) :
    ∀ d ∈ digits, isMark d = false := by
  obtain ⟨n, hn, -⟩ := Option.bind_eq_some_iff.1 h
  exact not_isMark_of_hexValue? hn

theorem not_isMark_of_escaped? {d : Char} (h : escaped? d = some c) : isMark d = false := by
  refine Bool.eq_false_iff.2 fun hmark => ?_
  rcases isMark_iff.1 hmark with rfl | rfl | rfl <;> simp [escaped?] at h

theorem elim_malformed_eq_ok_iff {o : Option α} {f : α → Except Fault β} {b : β} :
    o.elim malformed f = .ok b ↔ ∃ a, o = some a ∧ f a = .ok b := by
  cases o <;> simp

/-- An escape has a character at least, and none of its characters is a mark. -/
theorem takeEscape_eq (h : takeEscape cs = .ok (c, rest)) :
    ∃ raw, cs = raw ++ rest ∧ raw ≠ [] ∧ ∀ d ∈ raw, isMark d = false := by
  unfold takeEscape at h
  split at h
  · next a b c' d rest' =>
    obtain ⟨char, hchar, heq⟩ := elim_malformed_eq_ok_iff.1 h
    cases heq
    exact ⟨['u', a, b, c', d], rfl, by simp,
      List.forall_mem_cons.2 ⟨by decide, not_isMark_of_numbered? hchar⟩⟩
  · next a b c' d e f g i rest' =>
    obtain ⟨char, hchar, heq⟩ := elim_malformed_eq_ok_iff.1 h
    cases heq
    exact ⟨['U', a, b, c', d, e, f, g, i], rfl, by simp,
      List.forall_mem_cons.2 ⟨by decide, not_isMark_of_numbered? hchar⟩⟩
  · next d rest' _ _ =>
    obtain ⟨char, hchar, heq⟩ := elim_malformed_eq_ok_iff.1 h
    cases heq
    exact ⟨[d], rfl, by simp, by simpa using not_isMark_of_escaped? hchar⟩
  · cases h

theorem covers_escape {char : Char} (h : ∀ d ∈ raw, isMark d = false) :
    Covers ('\\' :: raw) [char] :=
  .of_no_mark (List.forall_mem_cons.2 ⟨by decide, h⟩) (by simp)

/-- What a string takes off the text up to its quote covers its content. If it is not longer,
then the string has no escapes. -/
theorem takeBasic_eq (h : takeBasic fuel cs = .ok (content, rest)) :
    ∃ raw, cs = raw ++ '"' :: rest ∧ Covers raw content ∧
      (raw.length = content.length → raw = content ∧ Verbatim content) := by
  induction fuel generalizing cs content with
  | zero => cases cs <;> cases h
  | succ fuel ih =>
    cases cs with
    | nil => cases h
    | cons c cs =>
      rw [takeBasic] at h
      split at h
      · next hquote =>
        cases h
        exact ⟨[], by simp [hquote], .rfl, fun _ => ⟨rfl, verbatim_nil⟩⟩
      next hquote =>
      split at h
      · next hbackslash =>
        obtain ⟨⟨char, cs'⟩, hescape, h⟩ := bind_eq_ok_iff.1 h
        obtain ⟨⟨content', rest'⟩, hmore, h⟩ := bind_eq_ok_iff.1 h
        cases h
        obtain ⟨escape, rfl, hne, hmarks⟩ := takeEscape_eq hescape
        obtain ⟨raw, rfl, hcovers, -⟩ := ih hmore
        refine ⟨('\\' :: escape) ++ raw, by simp [hbackslash],
          (covers_escape hmarks).append hcovers, fun heq => ?_⟩
        have := hcovers.length_le
        have := List.length_pos_iff.2 hne
        simp at heq
        omega
      next hbackslash =>
      split at h
      · cases h
      · next hcontrol =>
        obtain ⟨⟨content', rest'⟩, hmore, h⟩ := bind_eq_ok_iff.1 h
        cases h
        obtain ⟨raw, rfl, hcovers, hverbatim⟩ := ih hmore
        refine ⟨c :: raw, rfl, hcovers.cons, fun heq => ?_⟩
        obtain ⟨rfl, hraw⟩ := hverbatim (by simpa using heq)
        exact ⟨rfl, verbatim_cons.2 ⟨⟨hquote, hbackslash, by simpa using hcontrol⟩, hraw⟩⟩

theorem not_isMark_of_space (h : (isBlank c || c = '\n') = true) : isMark c = false := by
  obtain (rfl | rfl) | rfl : (c = ' ' ∨ c = '\t') ∨ c = '\n' := by simpa [isBlank] using h
  all_goals decide

/-- The end of a line behind a backslash, with the white space that follows, has no marks. -/
theorem skipLineEnd?_eq (h : skipLineEnd? cs = some rest) :
    ∃ raw, cs = raw ++ rest ∧ ∀ d ∈ raw, isMark d = false := by
  have hblanks : ∀ d ∈ cs.takeWhile isBlank, isMark d = false := fun d hd =>
    not_isMark_of_space (Bool.or_eq_true_iff.2 (.inl (List.mem_takeWhile_imp hd)))
  have hcs : cs.takeWhile isBlank ++ skipBlanks cs = cs := List.takeWhile_append_dropWhile
  unfold skipLineEnd? at h
  split at h
  · next more hmore =>
    obtain rfl := Option.some.inj h
    refine ⟨cs.takeWhile isBlank ++ '\n' :: more.takeWhile fun c => isBlank c || c = '\n', ?_, ?_⟩
    · rw [List.append_assoc, List.cons_append, List.takeWhile_append_dropWhile, ← hmore, hcs]
    · intro d hd
      rcases List.mem_append.1 hd with hd | hd
      · exact hblanks d hd
      rcases List.mem_cons.1 hd with rfl | hd
      · decide
      · exact not_isMark_of_space (List.mem_takeWhile_imp (p := fun c => isBlank c || c = '\n') hd)
  · next hnil =>
    obtain rfl := Option.some.inj h
    exact ⟨cs.takeWhile isBlank, by rw [← hnil, hcs], hblanks⟩
  · cases h

/-- The quotes behind the three that end a string may as well stand in front of them. -/
theorem takeMoreQuotes_eq (h : takeMoreQuotes '"' cs = (content, rest)) :
    '"' :: '"' :: '"' :: cs = content ++ '"' :: '"' :: '"' :: rest := by
  unfold takeMoreQuotes at h
  split at h
  · split_ifs at h <;> cases h <;> simp_all
  · split_ifs at h <;> cases h <;> simp_all
  · cases h
    rfl

/-- The same for a string of several lines, where quotes in front of the last three belong to
the string. -/
theorem takeBasicLines_eq (h : takeBasicLines fuel cs = .ok (content, rest)) :
    ∃ raw, cs = raw ++ '"' :: '"' :: '"' :: rest ∧ Covers raw content := by
  induction fuel generalizing cs content with
  | zero => cases cs <;> cases h
  | succ fuel ih =>
    unfold takeBasicLines at h
    split at h
    · next heq => cases heq
    · cases h
    · next heq =>
      cases heq
      exact ⟨content, takeMoreQuotes_eq (Except.ok.inj h), .rfl⟩
    · next c cs _ heq =>
      cases heq
      split_ifs at h with hbackslash hend hcontrol
      · obtain ⟨cs', hskip, hmore⟩ := elim_malformed_eq_ok_iff.1 h
        obtain ⟨skipped, rfl, hmarks⟩ := skipLineEnd?_eq hskip
        obtain ⟨raw, rfl, hcovers⟩ := ih hmore
        have hskipped : Covers ('\\' :: skipped) [] :=
          .of_no_mark (List.forall_mem_cons.2 ⟨by decide, hmarks⟩) (by simp)
        exact ⟨('\\' :: skipped) ++ raw, by simp [hbackslash], hskipped.append hcovers⟩
      · obtain ⟨⟨char, cs'⟩, hescape, h⟩ := bind_eq_ok_iff.1 h
        obtain ⟨⟨content', rest'⟩, hmore, h⟩ := bind_eq_ok_iff.1 h
        cases h
        obtain ⟨escape, rfl, -, hmarks⟩ := takeEscape_eq hescape
        obtain ⟨raw, rfl, hcovers⟩ := ih hmore
        exact ⟨('\\' :: escape) ++ raw, by simp [hbackslash],
          (covers_escape hmarks).append hcovers⟩
      · cases h
      · obtain ⟨⟨content', rest'⟩, hmore, h⟩ := bind_eq_ok_iff.1 h
        cases h
        obtain ⟨raw, rfl, hcovers⟩ := ih hmore
        exact ⟨c :: raw, rfl, hcovers.cons⟩

theorem skipFirstLineEnd_eq (cs : List Char) :
    ∃ raw, cs = raw ++ skipFirstLineEnd cs ∧ ∀ d ∈ raw, isMark d = false := by
  unfold skipFirstLineEnd
  split
  · exact ⟨['\n'], rfl, List.all_iff_forall_prop.1 (by decide)⟩
  · exact ⟨[], rfl, by simp⟩

/-- Whatever a string in double quotes is, what lies between its outermost quotes covers its
content. -/
theorem takeString_eq {text : String} (h : takeString ('"' :: cs) = .ok (text, rest)) :
    ∃ raw, cs = raw ++ '"' :: rest ∧ Covers raw text.toList ∧
      (raw.length = text.toList.length → raw = text.toList ∧ Verbatim text.toList) := by
  by_cases hthree : ∃ more, cs = '"' :: '"' :: more
  · obtain ⟨more, rfl⟩ := hthree
    rw [takeString_of_three] at h
    obtain ⟨⟨content, rest'⟩, hlines, h⟩ := bind_eq_ok_iff.1 h
    cases h
    obtain ⟨first, hfirst, hmarks⟩ := skipFirstLineEnd_eq more
    obtain ⟨raw, hraw, hcovers⟩ := takeBasicLines_eq hlines
    have hfront : Covers ('"' :: '"' :: first) [] :=
      .of_no_mark (by simpa [isMark] using hmarks) (by simp)
    have hback : Covers ['"', '"'] [] :=
      .of_no_mark (List.all_iff_forall_prop.1 (by decide)) (by simp)
    have hwhole := (hfront.append hcovers).append hback
    refine ⟨'"' :: '"' :: first ++ raw ++ ['"', '"'], ?_, by simpa using hwhole, fun heq => ?_⟩
    · rw [hfirst, hraw]
      simp
    · have := hcovers.length_le
      simp at heq
      omega
  · rw [takeString_of_one fun more heq => hthree ⟨more, heq⟩] at h
    obtain ⟨⟨content, rest'⟩, hbasic, h⟩ := bind_eq_ok_iff.1 h
    cases h
    simpa using takeBasic_eq hbasic

/-- A quote behind the mark that follows some ends of lines stands behind the mark. -/
theorem mem_of_lines_eq {mark : Char} (hmark : isMark mark = true) {n : Nat}
    {more extra : List Char}
    (h : List.replicate n '\n' ++ mark :: more = extra ++ '"' :: rest) : mark ∈ extra := by
  have hquote : mark ≠ '"' := by
    rintro rfl
    cases hmark
  rcases List.append_eq_append_iff.1 h with ⟨front, rfl, htail⟩ | ⟨back, hback, htail⟩
  · cases front with
    | nil => exact absurd (List.cons_eq_cons.1 htail).1 hquote
    | cons c front =>
      obtain ⟨rfl, -⟩ := List.cons_eq_cons.1 htail
      simp
  · cases back with
    | nil => exact absurd (List.cons_eq_cons.1 htail).1.symm hquote
    | cons c back =>
      obtain ⟨rfl, -⟩ := List.cons_eq_cons.1 htail
      have hmem : '"' ∈ List.replicate n '\n' := by simp [hback]
      exact absurd (List.eq_of_mem_replicate hmem) (by decide)

/-- A text that is read back from between quotes says what it is, also if it has become shorter
there without losing a mark. Reading more than stands between the quotes would add the mark that
is the next character behind the line. -/
theorem verbatim_of_takeString {text : String} {written : List Char} {mark : Char}
    (hmark : isMark mark = true) (hshort : written.length ≤ text.toList.length)
    (hmarks : text.toList.count mark ≤ written.count mark) (n : Nat) {more : List Char}
    (h : takeString ('"' :: (written ++ '"' :: (List.replicate n '\n' ++ mark :: more))) =
      .ok (text, rest)) : Verbatim text.toList := by
  obtain ⟨raw, heq, hcovers, hverbatim⟩ := takeString_eq h
  have hlength := hcovers.length_le
  rcases List.append_eq_append_iff.1 heq with ⟨extra, hraw, htail⟩ | ⟨missing, hraw, -⟩
  · cases extra with
    | nil =>
      have heq : raw.length = written.length := by simp [hraw]
      exact (hverbatim (by omega)).2
    | cons c extra =>
      obtain ⟨-, htail⟩ := List.cons_eq_cons.1 htail
      have hextra : 0 < extra.count mark := List.count_pos_iff.2 (mem_of_lines_eq hmark htail)
      have hcount := hcovers.count_le mark hmark
      rw [hraw, List.count_append, List.count_cons] at hcount
      omega
  · have heq : raw.length + missing.length = written.length := by simp [hraw]
    exact (hverbatim (by omega)).2

end TimePhrase.Toml
