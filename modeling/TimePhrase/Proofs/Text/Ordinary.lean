import Mathlib.Data.List.Infix
import TimePhrase.Proofs.Text.Letter
import TimePhrase.Proofs.Text.Number

/-!
# Ordinary text

A text without special letters and without numbers that are too long to read. Such texts can be
put together where no two digits meet.
-/

namespace TimePhrase.Text

/-- The text has no special letters, and no more digits in a row than are read. -/
structure Ordinary (text : List Char) : Prop where
  letters : ∀ c ∈ text, c ∉ specialLetters
  numbers : ∀ digits, digits <:+: text → (∀ c ∈ digits, isDigit c = true) →
    digits.length ≤ maxDigits

variable {text other : List Char}

theorem Ordinary.within (h : Ordinary text) (hwithin : other <:+: text) : Ordinary other where
  letters c hc := h.letters c (hwithin.subset hc)
  numbers digits hdigits := h.numbers digits (hdigits.trans hwithin)

theorem ordinary_of_length_le (hletters : ∀ c ∈ text, c ∉ specialLetters)
    (hlength : text.length ≤ maxDigits) : Ordinary text where
  letters := hletters
  numbers _ hdigits _ := hdigits.length_le.trans hlength

/-- Ordinary texts with something between them other than a digit make an ordinary text. -/
theorem Ordinary.append_cons {c : Char} (htext : Ordinary text) (hother : Ordinary other)
    (hletter : c ∉ specialLetters) (hdigit : isDigit c = false) :
    Ordinary (text ++ c :: other) where
  letters d hd := by
    rcases List.mem_append.1 hd with hd | hd
    · exact htext.letters d hd
    · rcases List.mem_cons.1 hd with rfl | hd
      · exact hletter
      · exact hother.letters d hd
  numbers digits hdigits hall := by
    -- No run of digits reaches over the character between the texts.
    have hstop {run : List Char} (hrun : run <+: c :: other)
        (hall : ∀ d ∈ run, isDigit d = true) : run = [] := by
      cases run with
      | nil => rfl
      | cons d run =>
        obtain ⟨rfl, -⟩ := List.cons_prefix_cons.1 hrun
        have := hall d (List.mem_cons_self ..)
        rw [hdigit] at this
        exact absurd this nofun
    rcases List.infix_append_iff.1 hdigits with hdigits | hdigits | ⟨run, more, rfl, hrun, hmore⟩
    · exact htext.numbers digits hdigits hall
    · rcases List.infix_cons_iff.1 hdigits with hdigits | hdigits
      · rw [hstop hdigits hall]
        exact Nat.zero_le _
      · exact hother.numbers digits hdigits hall
    · rw [hstop hmore fun d hd => hall d (List.mem_append_right run hd), List.append_nil]
      exact htext.numbers run hrun.isInfix fun d hd => hall d (List.mem_append_left more hd)

theorem Ordinary.blank_append (htext : Ordinary text) (hother : Ordinary other) :
    Ordinary (text ++ ' ' :: other) :=
  htext.append_cons hother (by decide) (by decide)

theorem not_mem_specialLetters {c : Char} (hc : c ∈ plainDigits) : c ∉ specialLetters := by
  have hall : ∀ c ∈ plainDigits, c ∉ specialLetters := List.all_iff_forall_prop.1 (by decide)
  exact hall c hc

/-- The text has no special letters and no more than the given number of characters. -/
def Brief (length : Nat) (text : String) : Prop :=
  (∀ c ∈ text.toList, c ∉ specialLetters) ∧ text.toList.length ≤ length

instance (length : Nat) (text : String) : Decidable (Brief length text) :=
  decidable_of_iff (text.toList.all (· ∉ specialLetters) = true ∧ text.toList.length ≤ length)
    (and_congr_left' List.all_iff_forall_prop)

theorem Brief.ordinary {length : Nat} {text : String} (h : Brief length text)
    (hlength : length ≤ maxDigits) : Ordinary text.toList :=
  ordinary_of_length_le h.1 (h.2.trans hlength)

theorem Brief.mono {m n : Nat} {text : String} (h : Brief m text) (hle : m ≤ n) : Brief n text :=
  ⟨h.1, h.2.trans hle⟩

theorem Brief.append {m n : Nat} {text other : String} (htext : Brief m text)
    (hother : Brief n other) : Brief (m + n) (text ++ other) := by
  rw [Brief, String.toList_append, List.length_append]
  exact ⟨fun c hc => (List.mem_append.1 hc).elim (htext.1 c) (hother.1 c),
    Nat.add_le_add htext.2 hother.2⟩

theorem brief_padNat {width n : Nat} (hwidth : 0 < width) (h : n < 10 ^ width) :
    Brief width (padNat width n) :=
  ⟨fun _ hc => not_mem_specialLetters (mem_padNat hc), (length_padNat hwidth h).le⟩

end TimePhrase.Text
