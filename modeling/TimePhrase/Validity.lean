import TimePhrase.Occurrence

/-!
# Which parts go together

`checkParts` runs on every prefix of the parts that a reader collects, so a reading that can
never become valid is given up early. `checkLimit` does so for the parts behind a limiter,
and `Term.ofParts` once an expression is complete.
-/

namespace TimePhrase

/-- No two parts of the content may settle the same unit. `settled` is what the parts before
have settled. -/
def checkScopes (settled : Scope) : List Content → Except Failure Unit
  | [] => return ()
  | c :: rest => do
    if settled.meets c.scope then
      refuse (.unitRepeated (← named c.describe))
    checkScopes (settled.union c.scope) rest

/-- A repetition and a fixed date exclude each other. -/
def checkRepetition (content : List Content) : Except Failure Unit := do
  match content.find? Content.isAbsolute with
  | some fixed => if content.any Content.isLooped then
      refuse (.fixedDateRepeats (← named fixed.describe))
  | none => return ()

/-- The part may stand beside a fixed date: it is a point other than a weekday. -/
def Content.fitsFixedDate (c : Content) : Bool :=
  match c with
  | .point (.weekday ..) => false
  | .point _ => true
  | .span _ => false

/-- Beside a fixed date there are only parts that fit it. -/
def checkFixedDate (content : List Content) : Except Failure Unit := do
  if content.any Content.isAbsolute then
    match content.find? (!·.fitsFixedDate) with
    | some other => refuse (.besideFixedDate (← named other.describe))
    | none => return ()

/-- Limits follow the content, which has to repeat, and each side is limited at most once. -/
def checkLimiters (parts : List Part) : Except Failure Unit := do
  let content := contents parts
  let sides := parts.filterMap Part.side?
  if !sides.isEmpty then
    if (parts.dropWhile (!·.isLimiter)).any (!·.isLimiter) then refuse .contentAfterLimit
    if content.isEmpty then refuse .limitWithoutContent
    if !content.any Content.isLooped then refuse .limitWithoutRepetition
    if !sides.Nodup then refuse .limitGivenTwice

/-- The parts can be the first parts of a valid expression. -/
def checkParts (parts : List Part) : Except Failure Unit := do
  let content := contents parts
  checkRepetition content
  checkScopes .empty content
  checkFixedDate content
  checkLimiters parts

/-- A limit holds no limit and nothing that repeats. -/
def checkLimitParts : List Part → Except Failure Unit
  | [] => return ()
  | part :: rest => do
    if part.isLimiter then refuse .limitInLimit
    if part.isLooped then refuse (.repeatingLimit (← named part.describe))
    checkLimitParts rest

/-- The parts can be the first parts of an expression behind a limiter. -/
def checkLimit (parts : List Part) : Except Failure Unit := do
  checkLimitParts parts
  checkParts parts

/-- A limit on the given side, if there is one, stands before a valid expression. -/
def Term.checkSide (term : Term) (side : Side) : Except Failure Unit := do
  match term.limiter? side with
  | none => return ()
  | some limiter =>
    match term.limit? side with
    | none => refuse (.limitWithoutTime (← named limiter.describe))
    | some limit => checkLimit limit.parts

/-- The term made of the given parts, if it is valid and, seen from `reference`, its limits
leave time between them. -/
def Term.ofParts (parts : List Part) (reference : DateTime) (defaultTime : TimeOfDay) :
    Except Failure Term := do
  checkParts parts
  let term : Term := ⟨parts⟩
  if term.content.isEmpty then refuse (.namesNoTime "")
  term.checkSide .lower
  term.checkSide .upper
  match ← term.bounds reference defaultTime with
  | ⟨some lower, some upper⟩ =>
    if upper ≤ lower then refuse (.boundsOutOfOrder lower upper) else return term
  | _ => return term

end TimePhrase
