/-!
# Rounding

A time in microseconds is told in whole seconds. Its seconds are first rounded to 53 binary digits
and then cut to a whole number, so that after some centuries a time just short of a second may be
told as that second.
-/

namespace TimePhrase

/-- The quotient rounded to the nearest number, and halves to the even one. -/
def roundedQuotient (n d : Nat) : Nat :=
  let twice := 2 * (n % d)
  if twice < d ∨ (twice = d ∧ n / d % 2 = 0) then n / d else n / d + 1

/-- The whole seconds in a number of microseconds, of which the seconds are rounded to 53 binary
digits before. -/
def roundedSeconds (micros : Nat) : Nat :=
  let places := 52 - (micros / 1000000).log2
  roundedQuotient (micros <<< places) 1000000 >>> places

/-- The whole seconds in a time that may be negative, which is cut towards zero. -/
def wholeSeconds (micros : Int) : Int :=
  if micros < 0 then -roundedSeconds micros.natAbs else roundedSeconds micros.natAbs

theorem roundedQuotient_bounds (n d : Nat) :
    n / d ≤ roundedQuotient n d ∧ roundedQuotient n d ≤ n / d + 1 := by
  simp only [roundedQuotient]
  split <;> omega

theorem roundedQuotient_mul {d : Nat} (hd : 0 < d) (n : Nat) : roundedQuotient (n * d) d = n := by
  simp only [roundedQuotient, Nat.mul_mod_left, Nat.mul_div_cancel n hd]
  rw [if_pos (Or.inl (by omega))]

theorem exists_roundedSeconds_eq (micros : Nat) : ∃ scale, 0 < scale ∧
    roundedSeconds micros = roundedQuotient (micros * scale) 1000000 / scale := by
  refine ⟨_, Nat.two_pow_pos (52 - (micros / 1000000).log2), ?_⟩
  simp only [roundedSeconds, Nat.shiftLeft_eq, Nat.shiftRight_eq_div_pow]

theorem roundedSeconds_mul (seconds : Nat) : roundedSeconds (seconds * 1000000) = seconds := by
  obtain ⟨scale, hpos, heq⟩ := exists_roundedSeconds_eq (seconds * 1000000)
  rw [heq, Nat.mul_right_comm, roundedQuotient_mul (by decide), Nat.mul_div_cancel _ hpos]

/-- What is told is the seconds that have passed, or one more. -/
theorem roundedSeconds_bounds (micros : Nat) :
    micros / 1000000 ≤ roundedSeconds micros ∧ roundedSeconds micros ≤ micros / 1000000 + 1 := by
  obtain ⟨scale, hpos, heq⟩ := exists_roundedSeconds_eq micros
  obtain ⟨hlow, hhigh⟩ := roundedQuotient_bounds (micros * scale) 1000000
  have hsplit : micros * scale =
      micros / 1000000 * scale * 1000000 + micros % 1000000 * scale := by
    rw [Nat.mul_right_comm, ← Nat.add_mul, Nat.mul_comm _ 1000000, Nat.div_add_mod]
  have hless : micros % 1000000 * scale < 1000000 * scale :=
    Nat.mul_lt_mul_of_pos_right (Nat.mod_lt _ (by decide)) hpos
  rw [heq]
  constructor
  · rw [Nat.le_div_iff_mul_le hpos]
    omega
  · refine Nat.div_le_of_le_mul ?_
    rw [Nat.mul_add, Nat.mul_one, Nat.mul_comm scale]
    omega

/-- Whole seconds are told as they are. -/
theorem wholeSeconds_mul (seconds : Int) : wholeSeconds (seconds * 1000000) = seconds := by
  have hsize : (seconds * 1000000).natAbs = seconds.natAbs * 1000000 := Int.natAbs_mul ..
  rw [wholeSeconds, hsize, roundedSeconds_mul]
  omega

/-- Two thousand years less a microsecond are told as two thousand years. -/
example : wholeSeconds 63113903999999999 = 63113904000 := by decide

end TimePhrase
