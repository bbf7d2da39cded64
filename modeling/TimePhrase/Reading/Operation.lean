import TimePhrase.Reading.Selection
import TimePhrase.Task.Counter

/-!
# Reading several expressions at once

An `Operation` reads the parts of an input side by side. It holds the branches that are
still to be looked at, and for each part a counter of them. A branch enters its children
before it is done, so a counter reaches zero only when nothing is left to do for its part;
the part is then reported, and after the last part the whole operation.

`Operation.step` looks at any one outstanding branch, and `Operation.run` at the one that
has waited longest, until none is left.
-/

namespace TimePhrase

/-- Who is told what an operation finds. A listener fails by returning a failure. -/
structure Listener where
  onPart : Nat → Selection → Option Failure
  onFinished : Nat → Selections → Option Failure

/-- A listener to nothing. -/
def Listener.silent : Listener := ⟨fun _ _ => none, fun _ _ => none⟩

/-- What an operation has reported. The number is that of the operation itself. -/
inductive Notice
  /-- A part could not be looked at to its end. -/
  | branchFailed (operation index : Nat) (failure : Failure)
  | partDone (operation : Nat) (selection : Selection)
  /-- Everything is done, and so many operations are still registered. -/
  | finished (operation : Nat) (result : Selections) (pending : Nat)

/-- The state of one part of the input. -/
structure PartState where
  text : List Char
  progress : Progress
  pending : Counter
  selection : Option Selection

/-- The state of the reading of an input. -/
structure Operation where
  id : Nat
  text : String
  parts : List PartState
  /-- The branches still to be looked at with the indices of their parts, the longest waiting
  first. -/
  outstanding : List (Nat × Branch)
  openParts : Counter
  /-- The operations that are registered as running. -/
  registered : List Nat
  /-- The first failure of a recognizer or of the listener. -/
  failure : Option Failure
  /-- What has been reported, in order. -/
  notices : List Notice
  /-- What the operation has come to. -/
  result : Option (Except Failure Selections)

namespace Operation

/-- An operation on the given parts, registered beside those that run already. -/
def start (id : Nat) (registered : List Nat) (text : String) (parts : List (List Char)) :
    Operation where
  id := id
  text := text
  parts := parts.map fun part => ⟨part, .none, ⟨1⟩, none⟩
  outstanding := parts.zipIdx.map fun (part, index) => (index, .start part)
  openParts := ⟨parts.length⟩
  registered := id :: registered
  failure := none
  notices := []
  result := none

/-- Keeps the first failure. -/
def fail (op : Operation) (failure : Failure) : Operation :=
  { op with failure := op.failure.or (some failure) }

/-- Keeps a failure of the listener, if it has failed. -/
def heed (op : Operation) (failure : Option Failure) : Operation :=
  failure.elim op op.fail

/-- Reports something. -/
def report (op : Operation) (notice : Notice) : Operation :=
  { op with notices := op.notices ++ [notice] }

/-- Changes the state of one part. -/
def modifyPart (op : Operation) (index : Nat) (f : PartState → PartState) : Operation :=
  { op with parts := op.parts.modify index f }

/-- The reports on all parts that are done. -/
def selections (op : Operation) : Selections :=
  ⟨op.text, op.parts.filterMap PartState.selection⟩

/-- Reports that everything is done. The operation is taken off the register before. -/
def finishAll (listener : Listener) (op : Operation) : Operation :=
  let op := { op with registered := op.registered.erase op.id }
  let result := op.selections
  let op := op.report (.finished op.id result op.registered.length)
  let op := op.heed (listener.onFinished op.id result)
  { op with result := some (op.failure.elim (.ok result) .error) }

/-- Reports that a part is done, and with the last part that everything is. -/
def finishPart (listener : Listener) (op : Operation) (index : Nat) (part : PartState) :
    Operation :=
  let selection : Selection := ⟨index, String.ofList part.text, part.progress.outcome part.text⟩
  let op := op.modifyPart index fun p => { p with selection := some selection }
  let op := op.report (.partDone op.id selection)
  let op := op.heed (listener.onPart op.id selection)
  match op.openParts.done with
  | .error _ => op
  | .ok left =>
    let op := { op with openParts := left }
    if left.value = 0 then op.finishAll listener else op

/-- Counts one branch of a part as done. -/
def completeBranch (listener : Listener) (op : Operation) (index : Nat) : Operation :=
  match op.parts[index]? with
  | none => op
  | some part =>
    match part.pending.done with
    | .error _ => op
    | .ok pending =>
      let op := op.modifyPart index fun p => { p with pending }
      if pending.value = 0 then op.finishPart listener index part else op

/-- Enters the children of a branch behind all other branches. -/
def enter (op : Operation) (index : Nat) (children : List Branch) : Operation :=
  let op := op.modifyPart index fun p => { p with pending := p.pending.add children.length }
  { op with outstanding := op.outstanding ++ children.map fun child => (index, child) }

/-- Takes in what a look at a branch of a part has brought to light. -/
def absorb (op : Operation) (index : Nat) (e : Exploration) : Operation :=
  let op := op.modifyPart index fun p => { p with progress := p.progress.add e }
  match e.failure with
  | some failure => (op.report (.branchFailed op.id index failure)).fail failure
  | none => op

/-- Looks at a branch that has been taken from the outstanding ones. -/
def visit (reader : Reader) (listener : Listener) (op : Operation) (index : Nat)
    (branch : Branch) : Operation :=
  match op.parts[index]? with
  | none => op
  | some part =>
    let e := branch.explore reader part.text
    ((op.absorb index e).enter index e.children).completeBranch listener index

/-- Looks at the outstanding branch in the given place. -/
def step (reader : Reader) (listener : Listener) (op : Operation) (place : Nat) : Operation :=
  match op.outstanding[place]? with
  | none => op
  | some (index, branch) =>
    { op with outstanding := op.outstanding.eraseIdx place }.visit reader listener index branch

/-- A bound on the number of steps until nothing is outstanding. -/
def weight (op : Operation) : Nat := Branch.totalWeight (op.outstanding.map (·.2))

end Operation

end TimePhrase
