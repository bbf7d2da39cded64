import Mathlib.Data.List.Forall2
import TimePhrase.Text.Blank
import TimePhrase.Text.Digit
import TimePhrase.Text.Letter
import TimePhrase.Text.WordChar

/-!
# Capital and small letters

What is asked about a character when an expression is read has the same answer for a basic letter
and for its capital: no blank and no digit is among them, and both have one small form.
-/

namespace TimePhrase.Text

/-- The characters are the same but for the case of a basic letter. -/
def SameButCase (c d : Char) : Prop := c.toLower = d.toLower

theorem toLower_cases (c : Char) :
    c.toLower = c ∨ ∃ n : Fin 26, c = Char.ofNat (65 + n) ∧ c.toLower = Char.ofNat (97 + n) := by
  by_cases hupper : 'A'.val ≤ c.val ∧ c.val ≤ 'Z'.val
  · right
    have hbounds : 65 ≤ c.toNat ∧ c.toNat ≤ 90 := by
      simpa [UInt32.le_iff_toNat_le] using hupper
    have hlower : ∀ n : Fin 26, (Char.ofNat (65 + n)).toLower = Char.ofNat (97 + n) := by decide
    have hcode : c = Char.ofNat (65 + (c.toNat - 65)) := by
      rw [Nat.add_sub_cancel' hbounds.1, Char.ofNat_toNat]
    refine ⟨⟨c.toNat - 65, by omega⟩, hcode, ?_⟩
    rw [← hlower, ← hcode]
  · exact .inl (dif_neg hupper)

/-- What holds alike of each capital and its small form does not depend on the case. -/
theorem SameButCase.eq_of {α : Type} {f : Char → α} {c d : Char} (h : SameButCase c d)
    (hf : ∀ n : Fin 26, f (Char.ofNat (65 + n)) = f (Char.ofNat (97 + n))) : f c = f d := by
  have hlower (c : Char) : f c = f c.toLower := by
    obtain heq | ⟨n, hcapital, hsmall⟩ := toLower_cases c
    · rw [heq]
    · rw [hsmall, ← hf, ← hcapital]
  rw [hlower c, hlower d, h]

theorem foldLetter_eq {c d : Char} (h : SameButCase c d) : foldLetter c = foldLetter d :=
  h.eq_of (by decide)

theorem isDigit_eq {c d : Char} (h : SameButCase c d) : isDigit c = isDigit d :=
  h.eq_of (by decide)

theorem digitValue?_eq {c d : Char} (h : SameButCase c d) : digitValue? c = digitValue? d :=
  h.eq_of (by decide)

theorem isBlank_eq {c d : Char} (h : SameButCase c d) : isBlank c = isBlank d :=
  h.eq_of (by decide)

theorem isWordChar_eq {c d : Char} (h : SameButCase c d) : isWordChar c = isWordChar d :=
  h.eq_of (by decide)

/-- A character that is no letter is the same as no other. -/
theorem eq_iff_of_sameButCase {c d : Char} (h : SameButCase c d) (e : Char)
    (he : ∀ n : Fin 26, Char.ofNat (65 + n) ≠ e ∧ Char.ofNat (97 + n) ≠ e) : c = e ↔ d = e := by
  have := h.eq_of (f := fun c => decide (c = e)) fun n => by simp [he n]
  simpa using this

variable {text other : List Char}

theorem lower_eq (h : List.Forall₂ SameButCase text other) : lower text = lower other := by
  induction h with
  | nil => rfl
  | cons hc _ ih =>
    have hsmall :=
      hc.eq_of (f := fun c => if c = '\u0130' then ['i', '\u0307'] else [smallLetter c])
      (by decide)
    rw [lower, List.flatMap_cons, hsmall]
    exact congrArg _ ih

theorem digitsValue_eq_of (h : List.Forall₂ SameButCase text other) :
    digitsValue text = digitsValue other := by
  have hfold (value : Nat) : text.foldl (fun n c => 10 * n + (digitValue? c).getD 0) value =
      other.foldl (fun n c => 10 * n + (digitValue? c).getD 0) value := by
    induction h generalizing value with
    | nil => rfl
    | cons hc _ ih => rw [List.foldl_cons, List.foldl_cons, digitValue?_eq hc, ih]
  exact hfold 0

theorem stripStart_alike (h : List.Forall₂ SameButCase text other) :
    List.Forall₂ SameButCase (stripStart text) (stripStart other) := by
  induction h with
  | nil => exact .nil
  | @cons c d _ _ hc hcs ih =>
    simp only [stripStart, List.dropWhile_cons, isBlank_eq hc]
    split
    · exact ih
    · exact .cons hc hcs

/-- The blanks at the ends of a text are the same in any case of its letters. -/
theorem strip_alike (h : List.Forall₂ SameButCase text other) :
    List.Forall₂ SameButCase (strip text) (strip other) :=
  (List.rel_reverse (stripStart_alike (List.rel_reverse (stripStart_alike h))))

/-- Two texts are the same but for the case of basic letters. -/
theorem forall₂_sameButCase_iff :
    List.Forall₂ SameButCase text other ↔ text.map Char.toLower = other.map Char.toLower := by
  rw [← List.forall₂_eq_eq_eq, List.forall₂_map_left_iff, List.forall₂_map_right_iff]
  rfl

end TimePhrase.Text
