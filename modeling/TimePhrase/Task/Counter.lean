import TimePhrase.Error

/-!
# Counting outstanding tasks

A counter of tasks that have been started and not yet finished. It refuses to finish more
tasks than there are.
-/

namespace TimePhrase

/-- The number of outstanding tasks. -/
structure Counter where
  value : Int
deriving DecidableEq

namespace Counter

/-- Starts `count` tasks. -/
def add (c : Counter) (count : Int) : Counter := ⟨c.value + count⟩

/-- Finishes one task. -/
def done (c : Counter) : Except Failure Counter :=
  if c.value ≤ 0 then .error .overdrawn else .ok ⟨c.value - 1⟩

end Counter

end TimePhrase
