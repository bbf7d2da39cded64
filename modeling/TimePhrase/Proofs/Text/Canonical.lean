import TimePhrase.Proofs.Pattern.Alike
import TimePhrase.Proofs.Text.Number
import TimePhrase.Text.Letter

/-!
# Canonical characters

Patterns do not tell a letter from the small letter that it counts as, nor a digit from the plain
digit of its value. So what they match in a text depends only on the text in canonical characters.
-/

namespace TimePhrase

namespace Text

/-- The plain digit of the value of a digit, and the letter that any other character counts as. -/
def canonical (c : Char) : Char :=
  match digitValue? c with
  | some value => plainDigits.getD value '0'
  | none => foldLetter c

/-- The letters that count as other letters. -/
def changedLetters : List Char :=
  (List.range 26).map (fun n => Char.ofNat (65 + n)) ++
    (List.range 31).map (fun n => Char.ofNat (0xC0 + n)) ++ ['\u017F', '\u0130', '\u0131', '\u212A']

theorem foldLetter_cases (c : Char) : foldLetter c = c ∨ c ∈ changedLetters := by
  have hother : ∀ c ∈ ['\u017F', '\u0130', '\u0131', '\u212A'], c ∈ changedLetters :=
    fun c hc => List.mem_append_right _ hc
  unfold foldLetter
  split
  · exact .inr (hother _ (by decide))
  · exact .inr (hother _ (by decide))
  · exact .inr (hother _ (by decide))
  · unfold smallLetter
    dsimp only
    split
    · rename_i hcapital
      refine .inr (List.mem_append_left _ (List.mem_append.2 (hcapital.imp (fun hbasic => ?_)
        fun hlatin => ?_)))
      · refine List.mem_map.2 ⟨c.toNat - 65, List.mem_range.2 (by omega), ?_⟩
        rw [Nat.add_sub_cancel' hbasic.1, Char.ofNat_toNat]
      · refine List.mem_map.2 ⟨c.toNat - 0xC0, List.mem_range.2 (by omega), ?_⟩
        rw [Nat.add_sub_cancel' hlatin.1, Char.ofNat_toNat]
    · split
      · rename_i hkelvin
        have hc : c = '\u212A' := by rw [← Char.ofNat_toNat c, hkelvin]
        exact .inr (hother _ (by rw [hc]; decide))
      · exact .inl rfl

/-- What holds alike of each letter and the one that it counts as does not depend on the letter. -/
theorem eq_foldLetter {α : Type} {f : Char → α}
    (hletters : ∀ c ∈ changedLetters, f (foldLetter c) = f c) (c : Char) :
    f (foldLetter c) = f c := by
  obtain hsame | hc := foldLetter_cases c
  · rw [hsame]
  · exact hletters c hc

theorem exists_digit {c : Char} (h : isDigit c = true) : ∃ first ∈ digitZeros, ∃ digit : Fin 10,
    digitValue? c = some digit.val ∧ c.toNat = first + digit := by
  obtain ⟨value, hvalue⟩ := Option.isSome_iff_exists.1 h
  obtain ⟨first, hfirst, hcode, hlt⟩ := exists_zero_of_digitFrom? hvalue
  exact ⟨first, hfirst, ⟨value, hlt⟩, hvalue, hcode⟩

/-- The character is no plain digit and stands before the digits of other scripts. -/
def besideDigits (c : Char) : Bool :=
  c.toNat < 48 || 57 < c.toNat && c.toNat < 0x660

/-- What the digits of each script have in common: the plain ones apart they come late, none of
them is blank, and all of them are characters of words. -/
theorem digitZeros_alike : ∀ first ∈ digitZeros, (first = 48 ∨ 0x660 ≤ first) ∧
    (∀ digit : Fin 10, isBlank (Char.ofNat (first + digit)) = false) ∧
    (wordRanges.any fun range => range.1.ble first && (first + 9).ble range.2) = true := by
  decide +kernel

/-- What each letter has in common with the one that it counts as. The sign for kelvins is the
only one of them behind digits of other scripts. -/
theorem changedLetters_alike : ∀ c ∈ changedLetters,
    (besideDigits c = true ∨ c = '\u212A') ∧ besideDigits (foldLetter c) = true ∧
    foldLetter (foldLetter c) = foldLetter c ∧ isBlank (foldLetter c) = isBlank c ∧
    isWordChar (foldLetter c) = isWordChar c ∧ foldLetter c ≠ '\n' ∧ c ≠ '\n' :=
  List.all_iff_forall_prop.1 (by decide +kernel)

theorem isDigit_of_besideDigits {c : Char} (h : besideDigits c = true) : isDigit c = false := by
  by_contra hc
  obtain ⟨first, hfirst, digit, -, hcode⟩ := exists_digit (by simpa using hc)
  have hzero := (digitZeros_alike first hfirst).1
  simp only [besideDigits, Bool.or_eq_true, Bool.and_eq_true, decide_eq_true_eq] at h
  omega

theorem isDigit_foldLetter (c : Char) : isDigit (foldLetter c) = isDigit c := by
  refine eq_foldLetter (fun c hc => ?_) c
  obtain ⟨hbeside, hfold, -⟩ := changedLetters_alike c hc
  have hletter : isDigit c = false := by
    rcases hbeside with hbeside | rfl
    · exact isDigit_of_besideDigits hbeside
    · rfl
  rw [hletter, isDigit_of_besideDigits hfold]

theorem foldLetter_foldLetter (c : Char) : foldLetter (foldLetter c) = foldLetter c :=
  eq_foldLetter (fun c hc => (changedLetters_alike c hc).2.2.1) c

theorem canonical_mem_plainDigits {c : Char} (h : isDigit c = true) :
    canonical c ∈ plainDigits := by
  obtain ⟨-, -, digit, hvalue, -⟩ := exists_digit h
  have hplain : ∀ digit : Fin 10, plainDigits.getD digit '0' ∈ plainDigits := by decide
  simp only [canonical, hvalue, hplain]

/-- What holds of all digits alike, and alike of each letter and the one that it counts as, does not
tell a character from its canonical one. -/
theorem eq_canonical {α : Type} {f : Char → α} (value : α)
    (hdigits : ∀ c, isDigit c = true → f c = value)
    (hletters : ∀ c ∈ changedLetters, f (foldLetter c) = f c) (c : Char) :
    f (canonical c) = f c := by
  by_cases hc : isDigit c = true
  · rw [hdigits c hc, hdigits _ (isDigit_of_mem (canonical_mem_plainDigits hc))]
  · have hnone : digitValue? c = none := by simpa [isDigit] using hc
    simp only [canonical, hnone, eq_foldLetter hletters]

theorem isDigit_canonical (c : Char) : isDigit (canonical c) = isDigit c :=
  eq_canonical true (fun _ hc => hc) (fun c _ => isDigit_foldLetter c) c

theorem isBlank_of_isDigit {c : Char} (h : isDigit c = true) : isBlank c = false := by
  obtain ⟨first, hfirst, digit, -, hcode⟩ := exists_digit h
  rw [← Char.ofNat_toNat c, hcode]
  exact (digitZeros_alike first hfirst).2.1 digit

theorem isBlank_canonical (c : Char) : isBlank (canonical c) = isBlank c :=
  eq_canonical false (fun _ hc => isBlank_of_isDigit hc)
    (fun c hc => (changedLetters_alike c hc).2.2.2.1) c

/-- A number in one of several ranges in ascending order is found. -/
theorem inRanges_of_mem {ranges : List (Nat × Nat)} (hsorted : ranges.Pairwise fun r s => r.1 ≤ s.1)
    {range : Nat × Nat} (hrange : range ∈ ranges) {n : Nat} (hn : range.1 ≤ n ∧ n ≤ range.2) :
    inRanges n ranges = true := by
  induction ranges with
  | nil => exact absurd hrange List.not_mem_nil
  | cons first rest ih =>
    obtain ⟨hfirst, hrest⟩ := List.pairwise_cons.1 hsorted
    rw [inRanges]
    obtain rfl | hmem := List.mem_cons.1 hrange
    · rw [if_neg (by omega)]
      simp [hn.2]
    · have := hfirst range hmem
      rw [if_neg (by omega), ih hrest hmem, Bool.or_true]

theorem isWordChar_canonical (c : Char) : isWordChar (canonical c) = isWordChar c := by
  refine eq_canonical true (fun c hc => ?_)
    (fun c hc => (changedLetters_alike c hc).2.2.2.2.1) c
  obtain ⟨first, hfirst, digit, -, hcode⟩ := exists_digit hc
  have hsorted : wordRanges.IsChain fun r s => r.1 ≤ s.1 := by decide +kernel
  obtain ⟨range, hrange, hbetween⟩ := List.any_eq_true.1 (digitZeros_alike first hfirst).2.2
  simp only [Bool.and_eq_true, Nat.ble_eq] at hbetween
  exact inRanges_of_mem (List.isChain_iff_pairwise.1 hsorted) hrange (by omega)

/-- A character that is neither a digit nor one that letters count as is its own canonical character
only. -/
theorem canonical_eq_iff {sign : Char} (hsign : isDigit sign = false)
    (hletters : ∀ c ∈ changedLetters, foldLetter c ≠ sign ∧ c ≠ sign) (c : Char) :
    canonical c = sign ↔ c = sign := by
  have hsame : decide (canonical c = sign) = decide (c = sign) := by
    refine eq_canonical (f := fun c => decide (c = sign)) false (fun c hc => ?_)
      (fun c hc => ?_) c
    · refine decide_eq_false fun heq => ?_
      rw [heq, hsign] at hc
      cases hc
    · obtain ⟨hfold, hletter⟩ := hletters c hc
      rw [decide_eq_false hfold, decide_eq_false hletter]
  simpa using hsame

theorem canonical_eq_newline_iff (c : Char) : canonical c = '\n' ↔ c = '\n' :=
  canonical_eq_iff (by decide) (fun c hc => (changedLetters_alike c hc).2.2.2.2.2) c

theorem canonical_eq_hyphen_iff (c : Char) : canonical c = '-' ↔ c = '-' :=
  canonical_eq_iff (by decide) (List.all_iff_forall_prop.1 (by decide)) c

theorem digitValue?_canonical (c : Char) : digitValue? (canonical c) = digitValue? c := by
  by_cases hc : isDigit c = true
  · obtain ⟨-, -, digit, hvalue, -⟩ := exists_digit hc
    have hplain : ∀ digit : Fin 10, digitValue? (plainDigits.getD digit '0') = some digit.val := by
      decide
    simp only [canonical, hvalue, hplain]
  · have hcanonical := isDigit_canonical c
    simp_all [isDigit]

/-- A character counts as a letter just when its canonical character does. -/
theorem sameLetter_canonical {letter : Char} (hletter : besideDigits letter = true)
    (c : Char) : sameLetter letter (canonical c) = sameLetter letter c := by
  refine eq_canonical (f := sameLetter letter) false
    (fun c hc => beq_eq_false_iff_ne.2 fun heq => ?_)
    (fun c _ => by simp only [sameLetter, foldLetter_foldLetter]) c
  have hdigit := isDigit_of_besideDigits hletter
  rw [← isDigit_foldLetter, heq, isDigit_foldLetter, hc] at hdigit
  cases hdigit

/-- A character that counts as a small letter has it as its canonical character. -/
theorem canonical_eq_of_sameLetter {letter c : Char} (h : sameLetter letter c = true)
    (hletter : isDigit letter = false) (hsmall : foldLetter letter = letter) :
    canonical c = letter := by
  have hfold : foldLetter c = letter := hsmall ▸ (eq_of_beq h).symm
  have hdigit := isDigit_foldLetter c
  rw [hfold, hletter] at hdigit
  have hnone : digitValue? c = none := by simpa [isDigit] using hdigit.symm
  simp only [canonical, hnone, hfold]

theorem digitsValue_map_canonical (digits : List Char) :
    digitsValue (digits.map canonical) = digitsValue digits := by
  unfold digitsValue
  rw [List.foldl_map]
  simp only [digitValue?_canonical]

end Text

namespace Pattern

variable {γ : Type}

/-- The pattern names no digit. -/
def namesNoDigit (p : Pattern γ) : Bool :=
  p.classes.all fun
    | .exactly c => Text.besideDigits c
    | _ => true

/-- A pattern that names no digit does not tell a character from its canonical one. -/
theorem blind_canonical {p : Pattern γ} (h : p.namesNoDigit = true) :
    p.Blind Text.sameLetter fun c d => d = Text.canonical c := by
  rintro k hk c _ rfl
  have hclass := List.all_eq_true.1 h k hk
  cases k with
  | exactly letter => exact (Text.sameLetter_canonical hclass c).symm
  | digit => exact (Text.isDigit_canonical c).symm
  | blank => exact (Text.isBlank_canonical c).symm
  | word => exact (Text.isWordChar_canonical c).symm
  | any => exact decide_eq_decide.2 (not_congr (Text.canonical_eq_newline_iff c).symm)

end Pattern

end TimePhrase
