import TimePhrase.Part.Describe
import TimePhrase.Calendar.Fault
import TimePhrase.Calendar.Stamp
import TimePhrase.Text.Quoted

/-!
# What can go wrong

An `ExpressionError` is a fault of an expression that its author is told about. A `Failure`
is anything that ends an operation, expression errors included.
-/

namespace TimePhrase

open Text (quoted)

/-- The kinds of fault an expression can have. -/
inductive ErrorKind
  | unparsable
  | incompatibleScope
  | absoluteLoop
  | boundOrdering
  | emptyTerm
  | boundExceeded
  | noFutureOccurrence
deriving DecidableEq

/-- A fault of an expression. Parts and terms are given by their descriptions. -/
inductive ExpressionError
  /-- Nothing can be read from the offset on. -/
  | unparsable (text : String) (offset : Int)
  | unitRepeated (part : String)
  | besideFixedDate (part : String)
  | contentAfterLimit
  | limitWithoutRepetition
  | limitGivenTwice
  | limitInLimit
  | repeatingLimit (part : String)
  | fixedDateRepeats (part : String)
  | boundsOutOfOrder (lower upper : DateTime)
  | limitWithoutContent
  | limitWithoutTime (limiter : String)
  | namesNoTime (term : String)
  | pastBound (candidate bound : DateTime)
  | neverOccurs (term : String) (since : DateTime)
  /-- The search for an occurrence was given up. -/
  | notFound (term : String) (since : DateTime)
  | outsideCalendar (fault : CalendarFault)
  | alreadyPast (term : String) (time : DateTime)
deriving DecidableEq, Inhabited

namespace ExpressionError

def kind : ExpressionError → ErrorKind
  | unparsable .. => .unparsable
  | unitRepeated _ | besideFixedDate _ | contentAfterLimit | limitWithoutRepetition
  | limitGivenTwice | limitInLimit | repeatingLimit _ => .incompatibleScope
  | fixedDateRepeats _ => .absoluteLoop
  | boundsOutOfOrder .. => .boundOrdering
  | limitWithoutContent | limitWithoutTime _ | namesNoTime _ => .emptyTerm
  | pastBound .. => .boundExceeded
  | neverOccurs .. | notFound .. | outsideCalendar _ | alreadyPast .. => .noFutureOccurrence

/-- The text from an offset on. A negative offset counts from the end. -/
def remaining (text : String) (offset : Int) : String :=
  let start := if offset < 0 then text.length + offset else offset
  String.ofList (text.toList.drop start.toNat)

/-- The sentence that tells the author of an expression what is wrong with it. -/
def message : ExpressionError → String
  | unparsable text offset =>
    let rest := remaining text offset
    if rest.isEmpty then s!"expression {quoted text} is incomplete"
    else s!"cannot understand {quoted rest} in {quoted text}"
  | unitRepeated part => s!"'{part}' repeats a unit of time already given"
  | besideFixedDate part => s!"'{part}' cannot be combined with a fixed date"
  | contentAfterLimit => "limits must come after the repetition"
  | limitWithoutRepetition => "only repeating expressions can be limited"
  | limitGivenTwice => "each limit may only be given once"
  | limitInLimit => "limits cannot be nested"
  | repeatingLimit part => s!"the limit '{part}' cannot repeat"
  | fixedDateRepeats part => s!"'{part}' is a fixed date and cannot repeat"
  | boundsOutOfOrder lower upper =>
    s!"the 'from' bound {lower.minuteStamp} is not before the 'until' bound {upper.minuteStamp}"
  | limitWithoutContent => "a limit needs something to repeat"
  | limitWithoutTime limiter => s!"'{limiter}' needs a time after it"
  | namesNoTime term => (if term.isEmpty then "expression" else term) ++ " names no time"
  | pastBound candidate bound =>
    s!"next occurrence {candidate.minuteStamp} is past the 'until' bound {bound.minuteStamp}"
  | neverOccurs term since => s!"{term} does not occur after {since.minuteStamp}"
  | notFound term since => s!"{term} does not occur after {since.fullStamp}"
  | outsideCalendar fault => s!"outside the supported calendar: {fault.message}"
  | alreadyPast term time => s!"{term} was at {time.minuteStamp}"

end ExpressionError

/-- What ends an operation. -/
inductive Failure
  | expression (error : ExpressionError)
  /-- A date or time that the calendar does not have. -/
  | outOfRange
  | numberTooLong (digits : Nat)
  /-- A word that was recognized by its letters but is not in the vocabulary. -/
  | unknownWord (word : String)
  | unknownLocale (name : String)
  /-- A month or weekday whose number has no name. -/
  | nameless
  /-- A repeating span without any count. -/
  | emptySpan
  | noSuchPart
  /-- There is no schedule that could repeat. -/
  | noSchedule
  | noCycle (kind : Kind)
  | spanWithoutRepetition
  | notAUnit (scope : String)
  /-- More tasks finished than were started. -/
  | overdrawn
  | parserClosed
  | noHomeDirectory
  /-- A callback failed with a message of its own. -/
  | callback (message : String)
deriving DecidableEq, Inhabited

namespace Failure

/-- The text that goes with a failure, if it has one. -/
def message? : Failure → Option String
  | expression e => some e.message
  | outOfRange | numberTooLong _ | nameless | emptySpan | noSuchPart | noSchedule => none
  | unknownWord word => some word
  | unknownLocale name => some s!"unknown locale {quoted name}"
  | noCycle kind => some s!"{kind.name} cannot be advanced"
  | spanWithoutRepetition => some "only repeating spans can be advanced"
  | notAUnit scope => some s!"not a span unit: {scope}"
  | overdrawn => some "more tasks finished than were started"
  | parserClosed => some "parser is closed"
  | noHomeDirectory => some "Could not determine home directory."
  | callback message => some message

end Failure

/-- The instant `count` units later, for a scope that is a unit of its own. -/
def DateTime.addScope (t : DateTime) (scope : Scope) (count : Int) : Except Failure DateTime :=
  match scope.unit? with
  | none => .error (.notAUnit scope.label)
  | some unit =>
    match t.addSpan? unit count with
    | some moved => .ok moved
    | none => .error .outOfRange

/-- The failure of an operation that cannot put something into words. -/
def Undescribed.failure : Undescribed → Failure
  | nameless => .nameless
  | numberTooLong digits => .numberTooLong digits

/-- A description that has to exist. -/
def named (description : Except Undescribed String) : Except Failure String :=
  match description with
  | .ok text => .ok text
  | .error cause => .error cause.failure

/-- Ends an operation with a fault of the expression. -/
def refuse {α : Type} (error : ExpressionError) : Except Failure α :=
  .error (.expression error)

end TimePhrase
