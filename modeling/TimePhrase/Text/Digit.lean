/-!
# Decimal digits

The decimal digits of all scripts, and the numbers that runs of them stand for. The digits
of one script are ten consecutive characters, so a table of the zeros determines them all.
-/

namespace TimePhrase.Text

/-- The code points of the digit zero in all scripts, in ascending order. -/
def digitZeros : List Nat :=
  [0x30, 0x660, 0x6F0, 0x7C0, 0x966, 0x9E6, 0xA66, 0xAE6, 0xB66, 0xBE6,
   0xC66, 0xCE6, 0xD66, 0xDE6, 0xE50, 0xED0, 0xF20, 0x1040, 0x1090, 0x17E0,
   0x1810, 0x1946, 0x19D0, 0x1A80, 0x1A90, 0x1B50, 0x1BB0, 0x1C40, 0x1C50, 0xA620,
   0xA8D0, 0xA900, 0xA9D0, 0xA9F0, 0xAA50, 0xABF0, 0xFF10, 0x104A0, 0x10D30, 0x11066,
   0x110F0, 0x11136, 0x111D0, 0x112F0, 0x11450, 0x114D0, 0x11650, 0x116C0, 0x11730, 0x118E0,
   0x11950, 0x11C50, 0x11D50, 0x11DA0, 0x16A60, 0x16AC0, 0x16B50, 0x1D7CE, 0x1D7D8, 0x1D7E2,
   0x1D7EC, 0x1D7F6, 0x1E140, 0x1E2F0, 0x1E950, 0x1FBF0]

/-- The value of the digit with the code point `n`, if it belongs to a script with one of the given
zeros. -/
def digitFrom? (n : Nat) : List Nat → Option Nat
  | [] => none
  | first :: rest =>
    if n < first then none else if n < first + 10 then some (n - first) else digitFrom? n rest

theorem exists_zero_of_digitFrom? {n value : Nat} {zeros : List Nat}
    (h : digitFrom? n zeros = some value) : ∃ first ∈ zeros, n = first + value ∧ value < 10 := by
  induction zeros with
  | nil => cases h
  | cons first rest ih =>
    rw [digitFrom?] at h
    split at h
    · cases h
    · split at h
      · obtain rfl := Option.some.inj h
        exact ⟨first, List.mem_cons_self .., by omega, by omega⟩
      · obtain ⟨other, hother, hvalue⟩ := ih h
        exact ⟨other, List.mem_cons_of_mem _ hother, hvalue⟩

/-- The value of a decimal digit of any script. -/
def digitValue? (c : Char) : Option Nat := digitFrom? c.toNat digitZeros

/-- The character is a decimal digit of some script. -/
def isDigit (c : Char) : Bool :=
  (digitValue? c).isSome

/-- The number that a run of decimal digits stands for, most significant digit first. -/
def digitsValue (digits : List Char) : Nat :=
  digits.foldl (fun n c => 10 * n + (digitValue? c).getD 0) 0

/-- A number is read from text only up to this many digits, leading zeros included. -/
def maxDigits : Nat := 4300

end TimePhrase.Text
