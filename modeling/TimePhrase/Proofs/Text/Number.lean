import Mathlib.Algebra.Group.Nat.Defs
import Mathlib.Data.Bool.AllAny
import TimePhrase.Calendar.Stamp
import TimePhrase.Text.Digit

/-!
# Numbers in writing are read back

Numbers are written in the digits of one script and read in those of all. A number that is
written, with or without leading zeros, stands for itself, and so does a time of day that is
written in hours and minutes.
-/

namespace TimePhrase.Text

/-- The digits that numbers are written in. -/
def plainDigits : List Char := ['0', '1', '2', '3', '4', '5', '6', '7', '8', '9']

theorem mem_plainDigits {c : Char} (h : c.isDigit = true) : c ∈ plainDigits := by
  have hrange : 48 ≤ c.toNat ∧ c.toNat ≤ 57 := by
    simpa [Char.isDigit, UInt32.le_iff_toNat_le] using h
  have hall : ∀ n : Fin 10, Char.ofNat (48 + n) ∈ plainDigits := by decide
  have hc := hall ⟨c.toNat - 48, by omega⟩
  rwa [show 48 + (c.toNat - 48) = c.toNat by omega, Char.ofNat_toNat] at hc

theorem digitValue?_of_mem {c : Char} (h : c ∈ plainDigits) :
    digitValue? c = some (c.toNat - '0'.toNat) := by
  have hall : ∀ c ∈ plainDigits, digitValue? c = some (c.toNat - '0'.toNat) :=
    List.all_iff_forall_prop.1 (by decide)
  exact hall c h

theorem isDigit_of_mem {c : Char} (h : c ∈ plainDigits) : isDigit c = true := by
  rw [isDigit, digitValue?_of_mem h]
  rfl

theorem digitsValue_eq {digits : List Char} (h : ∀ c ∈ digits, c ∈ plainDigits) :
    digitsValue digits = Nat.ofDigitChars 10 digits 0 := by
  have hfrom (start : Nat) : digits.foldl (fun n c => 10 * n + (digitValue? c).getD 0) start =
      Nat.ofDigitChars 10 digits start := by
    induction digits generalizing start with
    | nil => simp
    | cons c rest ih =>
      rw [List.foldl_cons, digitValue?_of_mem (h c (List.mem_cons_self ..)),
        Nat.ofDigitChars_cons, ← ih fun d hd => h d (List.mem_cons_of_mem _ hd)]
      rfl
  exact hfrom 0

theorem mem_toDigits {n : Nat} {c : Char} (h : c ∈ Nat.toDigits 10 n) : c ∈ plainDigits :=
  mem_plainDigits (Nat.isDigit_of_mem_toDigits (by decide) (by decide) h)

/-- A number written without leading zeros stands for itself. -/
theorem digitsValue_toDigits (n : Nat) : digitsValue (Nat.toDigits 10 n) = n := by
  rw [digitsValue_eq fun c => mem_toDigits, Nat.ofDigitChars_toDigits (by decide) (by decide)]

/-- A number without leading zeros and what follows it are read off the text. -/
theorem number_append_inj {n m : Nat} {rest rest' : List Char}
    (hrest : ∀ c ∈ rest.head?, c.isDigit = false) (hrest' : ∀ c ∈ rest'.head?, c.isDigit = false)
    (h : (toString n).toList ++ rest = (toString m).toList ++ rest') : n = m ∧ rest = rest' := by
  have hfront (k : Nat) {tail : List Char} (htail : ∀ c ∈ tail.head?, c.isDigit = false) :
      ((toString k).toList ++ tail).takeWhile Char.isDigit = Nat.toDigits 10 k := by
    have hdigits : ∀ c ∈ Nat.toDigits 10 k, c.isDigit = true := fun c hc =>
      Nat.isDigit_of_mem_toDigits (by decide) (by decide) hc
    have htext : (toString k).toList = Nat.toDigits 10 k := by simp
    rw [htext, List.takeWhile_append_of_pos hdigits]
    cases tail with
    | nil => simp
    | cons c tail => simp [htail c rfl]
  have hdigits : Nat.toDigits 10 n = Nat.toDigits 10 m := by
    rw [← hfront n hrest, h, hfront m hrest']
  obtain rfl : n = m := by
    rw [← digitsValue_toDigits n, hdigits, digitsValue_toDigits]
  exact ⟨rfl, List.append_cancel_left h⟩

theorem toList_padNat (width n : Nat) : (padNat width n).toList =
    List.replicate (width - (Nat.toDigits 10 n).length) '0' ++ Nat.toDigits 10 n := by
  simp [padNat, Nat.repr_eq_ofList_toDigits]

theorem mem_padNat {width n : Nat} {c : Char} (h : c ∈ (padNat width n).toList) :
    c ∈ plainDigits := by
  rw [toList_padNat] at h
  rcases List.mem_append.1 h with h | h
  · rw [List.eq_of_mem_replicate h]
    decide
  · exact mem_toDigits h

/-- A number written with leading zeros stands for itself. -/
theorem digitsValue_padNat (width n : Nat) : digitsValue (padNat width n).toList = n := by
  rw [digitsValue_eq fun c => mem_padNat, toList_padNat, Nat.ofDigitChars_append,
    Nat.ofDigitChars_replicate_zero, Nat.mul_zero, Nat.ofDigitChars_toDigits (by decide) (by decide)]

/-- A number that fits the width is written in as many digits. -/
theorem length_padNat {width n : Nat} (hwidth : 0 < width) (h : n < 10 ^ width) :
    (padNat width n).toList.length = width := by
  have hlength := (Nat.length_toDigits_le_iff (by decide) hwidth).2 h
  rw [toList_padNat, List.length_append, List.length_replicate]
  omega

/-- A number of fixed width and what follows it are read off the text. -/
theorem padNat_append_inj {width n m : Nat} {rest rest' : List Char} (hwidth : 0 < width)
    (hn : n < 10 ^ width) (hm : m < 10 ^ width)
    (h : (padNat width n).toList ++ rest = (padNat width m).toList ++ rest') :
    n = m ∧ rest = rest' := by
  obtain ⟨hdigits, hrest⟩ := List.append_inj h
    ((length_padNat hwidth hn).trans (length_padNat hwidth hm).symm)
  have hvalue := congrArg digitsValue hdigits
  rw [digitsValue_padNat, digitsValue_padNat] at hvalue
  exact ⟨hvalue, hrest⟩

/-- So many digits stand for no more than the largest number of this length. -/
theorem digitsValue_lt (digits : List Char) : digitsValue digits < 10 ^ digits.length := by
  have hdigit (c : Char) : (digitValue? c).getD 0 ≤ 9 := by
    cases hvalue : digitValue? c with
    | none => simp
    | some value =>
      obtain ⟨-, -, -, hlt⟩ := exists_zero_of_digitFrom? hvalue
      simp only [Option.getD_some]
      omega
  have hfrom (start : Nat) : digits.foldl (fun n c => 10 * n + (digitValue? c).getD 0) start <
      (start + 1) * 10 ^ digits.length := by
    induction digits generalizing start with
    | nil => simp
    | cons c rest ih =>
      have hc := hdigit c
      have hnext : 10 * start + (digitValue? c).getD 0 + 1 ≤ (start + 1) * 10 := by omega
      refine Nat.lt_of_lt_of_le (ih _) ?_
      rw [List.length_cons, Nat.pow_succ, Nat.mul_comm (10 ^ rest.length) 10, ← Nat.mul_assoc]
      exact Nat.mul_le_mul_right _ hnext
  have hzero := hfrom 0
  rwa [Nat.zero_add, Nat.one_mul] at hzero

end TimePhrase.Text

namespace TimePhrase

open Text (padNat)

/-- The time of day is read off its description. -/
theorem stamp_inj {clock clock' : TimeOfDay} {tail tail' : List Char}
    (h : clock.stamp.toList ++ tail = clock'.stamp.toList ++ tail') : clock = clock' := by
  have hstamp (c : TimeOfDay) : c.stamp = padNat 2 c.hour ++ ":" ++ padNat 2 c.minute := rfl
  simp only [hstamp, String.toList_append, List.append_assoc] at h
  obtain ⟨hhour, hrest⟩ := Text.padNat_append_inj (by decide) (by omega) (by omega) h
  obtain ⟨hminute, -⟩ := Text.padNat_append_inj (by decide) (by omega) (by omega)
    (List.append_cancel_left hrest)
  obtain ⟨hour, minute⟩ := clock
  obtain ⟨hour', minute'⟩ := clock'
  exact congrArg₂ TimeOfDay.mk (Fin.ext hhour) (Fin.ext hminute)

end TimePhrase
