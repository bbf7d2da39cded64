import TimePhrase.Recognizer
import TimePhrase.Validity

/-!
# Partial readings of an expression

Reading an expression is a search: at every place several recognizers may find a part, and
each makes for another reading of the rest. A `Branch` is a reading of the beginning of the
text, and `Branch.explore` looks one part further.
-/

namespace TimePhrase

/-- What the meaning of a text depends on: its language, the present time, and the time of
day meant when none is named. -/
structure Reader where
  locale : Locale
  now : DateTime
  defaultTime : TimeOfDay

/-- A reading of the beginning of a text. -/
structure Branch where
  /-- The text still to be read. -/
  rest : List Char
  /-- The parts read so far, except those of a limit that is still open. -/
  main : List Part
  /-- The limiter whose limit is open. -/
  openLimit : Option Side
  /-- The parts of the open limit. -/
  nested : List Part

/-- What a look at a branch brings to light. -/
structure Exploration where
  /-- The readings that end here. -/
  readings : List Term
  /-- Faults, with the offset up to which the text was read, in the order of their discovery. -/
  rejections : List (ExpressionError × Nat)
  /-- The offset at which nothing is recognized. -/
  stuck : Option Nat
  /-- The branches that go on from here. -/
  children : List Branch
  /-- What kept the exploration from coming to its end. -/
  failure : Option Failure

namespace Branch

/-- The reading of nothing yet. -/
def start (text : List Char) : Branch := ⟨text, [], none, []⟩

/-- How far a text has been read. -/
def offset (text : List Char) (branch : Branch) : Nat := text.length - branch.rest.length

/-- The parts of the whole expression, an open limit being complete. -/
def closedParts (branch : Branch) : Except Failure (List Part) := do
  match branch.openLimit with
  | none => return branch.main
  | some side =>
    if branch.nested.isEmpty then refuse (.limitWithoutTime side.word)
    let parts := branch.main ++ [.limiter side (some branch.nested)]
    checkParts parts
    return parts

/-- The reading that goes on with a part. A limiter completes the limit before it. -/
def extend (branch : Branch) (found : Found) : Except Failure Branch := do
  match found.part with
  | .limiter side _ =>
    let main ← branch.closedParts
    checkParts (main ++ [found.part])
    return ⟨found.rest, main, some side, []⟩
  | .content _ =>
    if branch.openLimit.isSome then
      let nested := branch.nested ++ [found.part]
      checkLimit nested
      return { branch with rest := found.rest, nested }
    else
      let main := branch.main ++ [found.part]
      checkParts main
      return { branch with rest := found.rest, main }

/-- The term of a branch that has read everything. -/
def finish (reader : Reader) (branch : Branch) : Except Failure Term := do
  Term.ofParts (← branch.closedParts) reader.now reader.defaultTime

/-- The part of the given kind that the rest of the text begins with. It has to take in
something. -/
def recognize (grammar : Grammar) (branch : Branch) (kind : Kind) :
    Except Failure (Option { found : Found // found.rest.length < branch.rest.length }) := do
  match ← Recognizer.ofKind kind grammar branch.rest with
  | none => return none
  | some found =>
    if h : found.rest.length < branch.rest.length then return some ⟨found, h⟩ else return none

/-- Goes on with every part of the given kinds. `recognized` says whether a part has been found
before. A failure leaves no branches to follow. -/
def exploreKinds (grammar : Grammar) (text : List Char) (branch : Branch) (recognized : Bool) :
    List Kind → Exploration
  | [] => ⟨[], [], if recognized then none else some (branch.offset text), [], none⟩
  | kind :: kinds =>
    match branch.recognize grammar kind with
    | .error failure => ⟨[], [], none, [], some failure⟩
    | .ok none => branch.exploreKinds grammar text recognized kinds
    | .ok (some ⟨found, _⟩) =>
      match branch.extend found with
      | .error (.expression error) =>
        let others := branch.exploreKinds grammar text true kinds
        { others with
          rejections := (error, text.length - found.rest.length) :: others.rejections }
      | .error failure => ⟨[], [], none, [], some failure⟩
      | .ok child =>
        let others := branch.exploreKinds grammar text true kinds
        { others with
          children := if others.failure.isSome then [] else child :: others.children }

/-- Looks one part further. At the end of the text the expression has to be valid. -/
def explore (reader : Reader) (text : List Char) (branch : Branch) : Exploration :=
  if branch.rest.isEmpty then
    match branch.finish reader with
    | .ok term => ⟨[term], [], none, [], none⟩
    | .error (.expression error) => ⟨[], [(error, text.length)], none, [], none⟩
    | .error failure => ⟨[], [], none, [], some failure⟩
  else
    branch.exploreKinds reader.locale.grammar text false Recognizer.kinds

/-- A bound on the number of branches that a text of the given length leads to. -/
def reach : Nat → Nat
  | 0 => 1
  | length + 1 => reach length + Recognizer.kinds.length * reach length

/-- A bound on the number of branches that a branch leads to, itself included. -/
def weight (branch : Branch) : Nat := reach branch.rest.length

/-- The weights of several branches together. -/
def totalWeight : List Branch → Nat
  | [] => 0
  | branch :: branches => branch.weight + totalWeight branches

theorem reach_pos (length : Nat) : 0 < reach length := by
  induction length with
  | zero => simp [reach]
  | succ length ih => simp only [reach]; omega

theorem reach_mono {m n : Nat} (h : m ≤ n) : reach m ≤ reach n := by
  induction h with
  | refl => exact Nat.le_refl _
  | step _ ih => simp only [reach]; omega

@[simp] theorem totalWeight_append (branches others : List Branch) :
    totalWeight (branches ++ others) = totalWeight branches + totalWeight others := by
  induction branches with
  | nil => simp [totalWeight]
  | cons branch branches ih => simp only [List.cons_append, totalWeight, ih]; omega

theorem totalWeight_le {branches : List Branch} {bound : Nat}
    (h : ∀ branch ∈ branches, branch.weight ≤ bound) :
    totalWeight branches ≤ branches.length * bound := by
  induction branches with
  | nil => simp [totalWeight]
  | cons branch branches ih =>
    have hfirst := h branch (by simp)
    have hrest := ih fun other hother => h other (by simp [hother])
    simp only [totalWeight, List.length_cons, Nat.succ_mul]
    omega

theorem rest_of_extend {branch child : Branch} {found : Found}
    (h : branch.extend found = .ok child) : child.rest = found.rest := by
  unfold extend at h
  split at h
  · simp only [bind, Except.bind] at h
    split at h
    · simp at h
    · split at h
      · simp at h
      · simp only [pure, Except.pure, Except.ok.injEq] at h
        simp [← h]
  · split at h <;> simp only [bind, Except.bind] at h <;> split at h <;>
      simp only [pure, Except.pure, Except.ok.injEq, reduceCtorEq] at h <;> simp [← h]

theorem length_of_mem_exploreKinds {grammar : Grammar} {text : List Char} {branch child : Branch}
    {recognized : Bool} {kinds : List Kind}
    (h : child ∈ (branch.exploreKinds grammar text recognized kinds).children) :
    child.rest.length < branch.rest.length := by
  induction kinds generalizing recognized with
  | nil => simp [exploreKinds] at h
  | cons kind kinds ih =>
    unfold exploreKinds at h
    split at h
    · simp at h
    · exact ih h
    · rename_i found hfound _
      split at h
      · exact ih h
      · simp at h
      · rename_i other hextend
        dsimp only at h
        split at h
        · simp at h
        · rcases List.mem_cons.1 h with rfl | h
          · rwa [rest_of_extend hextend]
          · exact ih h

theorem length_exploreKinds_le {grammar : Grammar} {text : List Char} {branch : Branch}
    {recognized : Bool} {kinds : List Kind} :
    (branch.exploreKinds grammar text recognized kinds).children.length ≤ kinds.length := by
  induction kinds generalizing recognized with
  | nil => simp [exploreKinds]
  | cons kind kinds ih =>
    unfold exploreKinds
    split
    · simp
    · exact Nat.le_succ_of_le ih
    · split
      · exact Nat.le_succ_of_le ih
      · simp
      · dsimp only
        split
        · simp
        · exact Nat.succ_le_succ ih

end Branch

end TimePhrase
