import TimePhrase.Reading.Branch

/-!
# The readings of an expression

What has been found out about one expression so far, and what is reported about it in the
end: all its readings or, when there are none, the fault that lies furthest into the text.
-/

namespace TimePhrase

/-- What has been found out about an expression so far. -/
structure Progress where
  readings : List Term
  /-- The furthest offset at which nothing was recognized. -/
  stuckAt : Nat
  /-- The first of the faults that lie furthest into the text, with its offset. -/
  rejection : Option (ExpressionError × Nat)

/-- What is reported about one expression. More than one reading means that it is ambiguous. -/
structure Selection where
  index : Nat
  text : String
  outcome : Except ExpressionError (List Term)

/-- What is reported about several expressions, in the order of the text. -/
structure Selections where
  text : String
  parts : List Selection

namespace Progress

/-- Nothing has been looked at yet. -/
def none : Progress := ⟨[], 0, .none⟩

/-- Notes a fault unless one at least as far into the text is known. -/
def reject (p : Progress) (error : ExpressionError) (offset : Nat) : Progress :=
  match p.rejection with
  | some (_, furthest) =>
    if furthest < offset then { p with rejection := some (error, offset) } else p
  | .none => { p with rejection := some (error, offset) }

/-- Takes in what a look at a branch has brought to light. -/
def add (p : Progress) (e : Exploration) : Progress :=
  let p := e.rejections.foldl (fun p (error, offset) => p.reject error offset) p
  { p with
    readings := p.readings ++ e.readings
    stuckAt := max p.stuckAt (e.stuck.getD 0) }

/-- The outcome for a text: its readings, or the fault furthest into it. A fault counts before
a place where nothing was recognized, unless that lies further. -/
def outcome (p : Progress) (text : List Char) : Except ExpressionError (List Term) :=
  if !p.readings.isEmpty then .ok p.readings
  else
    match p.rejection with
    | some (error, offset) =>
      if p.stuckAt ≤ offset then .error error
      else .error (.unparsable (String.ofList text) p.stuckAt)
    | .none => .error (.unparsable (String.ofList text) p.stuckAt)

end Progress

namespace Selection

def readings (s : Selection) : List Term := s.outcome.toOption.getD []

def error? (s : Selection) : Option ExpressionError :=
  match s.outcome with
  | .ok _ => none
  | .error e => some e

/-- The text allows several readings. -/
def isAmbiguous (s : Selection) : Bool := 1 < s.readings.length

end Selection

namespace Selections

/-- The faults of the expressions that have one. -/
def errors (s : Selections) : List ExpressionError := s.parts.filterMap Selection.error?

end Selections

end TimePhrase
