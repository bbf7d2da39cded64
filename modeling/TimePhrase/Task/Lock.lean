/-!
# A lock for many readers or one writer

The state of a lock that any number of readers may hold at once, or a single writer alone.
Taking it fails while it would have to wait.
-/

namespace TimePhrase

/-- Who holds the lock. -/
structure Lock where
  readers : Nat
  writing : Bool
deriving DecidableEq

/-- The two ways to hold a lock. -/
inductive Access
  | read
  | write
deriving DecidableEq

namespace Lock

/-- A lock that nobody holds. -/
def free : Lock := ⟨0, false⟩

/-- Takes the lock, if that needs no waiting. -/
def acquire? (l : Lock) : Access → Option Lock
  | .read => if l.writing then none else some { l with readers := l.readers + 1 }
  | .write => if l.writing || l.readers ≠ 0 then none else some { l with writing := true }

/-- Gives the lock back, whether or not the work inside has failed. -/
def release (l : Lock) : Access → Lock
  | .read => { l with readers := l.readers - 1 }
  | .write => { l with writing := false }

/-- Takes the lock once for each access in turn. -/
def acquireAll? (l : Lock) (accesses : List Access) : Option Lock :=
  accesses.foldlM acquire? l

/-- Gives the lock back once for each access, the last one first. -/
def releaseAll (l : Lock) (accesses : List Access) : Lock :=
  accesses.reverse.foldl release l

end Lock

end TimePhrase
