import Mathlib.Data.Bool.AllAny
import Mathlib.Data.List.Forall2
import TimePhrase.Text.Letter

/-!
# Letters that count as equal

Most letters have the small form by which they are compared. The few that do not are the special
ones: a word spelled with them is taken for another one, but its small form is not that of the
other word.
-/

namespace TimePhrase.Text

/-- The letters that are compared by something other than their small form. -/
def specialLetters : List Char := ['\u017F', '\u0130', '\u0131']

theorem foldLetter_of_not_mem {c : Char} (h : c ∉ specialLetters) :
    foldLetter c = smallLetter c := by
  unfold foldLetter
  split
  · exact absurd (List.mem_cons_self ..) h
  · exact absurd (by decide) h
  · exact absurd (by decide) h
  · rfl

theorem lower_of_forall {chars : List Char} (h : ∀ c ∈ chars, c ∉ specialLetters) :
    lower chars = chars.map foldLetter := by
  induction chars with
  | nil => rfl
  | cons c rest ih =>
    obtain ⟨hc, hrest⟩ := List.forall_mem_cons.1 h
    have hdotted : c ≠ '\u0130' := fun heq => hc (heq ▸ by decide)
    have hlower : lower (c :: rest) = [smallLetter c] ++ lower rest := by
      simp [lower, hdotted]
    rw [hlower, ih hrest, ← foldLetter_of_not_mem hc]
    rfl

/-- Words that are the same letter by letter have the same small form. -/
theorem lower_eq_of_forall₂ {word chars : List Char}
    (hsame : List.Forall₂ (fun a b => sameLetter a b = true) word chars)
    (hword : ∀ c ∈ word, c ∉ specialLetters) (hchars : ∀ c ∈ chars, c ∉ specialLetters) :
    lower chars = lower word := by
  rw [lower_of_forall hword, lower_of_forall hchars]
  clear hword hchars
  induction hsame with
  | nil => rfl
  | cons h _ ih => rw [List.map_cons, List.map_cons, ih, eq_of_beq h]

/-- A letter that is the same as a plain small one is that letter or its capital. -/
theorem eq_of_sameLetter {l c : Char} (h : sameLetter l c = true) (hl : foldLetter l = l)
    (hplain : l ∉ ['s', 'i', 'k']) (hascii : l.toNat < 128) :
    c = l ∨ 97 ≤ l.toNat ∧ c = Char.ofNat (l.toNat - 32) := by
  have hfold : foldLetter c = l := hl ▸ (eq_of_beq h).symm
  by_cases hspecial : c ∈ specialLetters
  · have hfolds : ∀ c ∈ specialLetters, foldLetter c ∈ ['s', 'i', 'k'] :=
      List.all_iff_forall_prop.1 (by decide)
    exact absurd (hfold ▸ hfolds c hspecial) hplain
  · rw [foldLetter_of_not_mem hspecial, smallLetter] at hfold
    split at hfold
    · rename_i hcapital
      have hlatin : ∀ n : Fin 256, (Char.ofNat n).toNat = n := by decide +kernel
      have hsmall : l.toNat = c.toNat + 32 := by
        rw [← hfold]
        exact hlatin ⟨c.toNat + 32, by omega⟩
      refine .inr ⟨by omega, ?_⟩
      rw [hsmall, Nat.add_sub_cancel, Char.ofNat_toNat]
    · split at hfold
      · exact absurd (hfold ▸ by decide) hplain
      · exact .inl hfold

end TimePhrase.Text
