import TimePhrase.Reading.Order
import TimePhrase.Reading.Run
import TimePhrase.Schedule

/-!
# A session with one reader

A session keeps what was last read and the schedule that was last made of it, together with
a cursor that moves from one occurrence to the next. A request that fails leaves the session
as it was.
-/

namespace TimePhrase

/-- The state of a session. -/
structure Session where
  reader : Reader
  /-- A closed session reads nothing more. Its schedules still work. -/
  isClosed : Bool
  /-- The readings of the expression that was last read, sorted. -/
  readings : List Term
  schedule : Option Schedule
  /-- Where the next advance starts. -/
  cursor : DateTime
  /-- The operations that are running. -/
  registered : List Nat
  /-- The number of the next operation. -/
  nextId : Nat

namespace Session

/-- A new session. -/
def start (reader : Reader) : Session := ⟨reader, false, [], none, reader.now, [], 0⟩

/-- Reads an input, telling the listener what is found. -/
def submit (s : Session) (listener : Listener) (text : String) (several : Bool) :
    Except Failure (Operation × Session) := do
  if s.isClosed then .error .parserClosed
  let op := s.reader.submit listener s.nextId s.registered text several
  return (op, { s with registered := op.registered, nextId := s.nextId + 1 })

/-- Reads all expressions of an input. -/
def readAll (s : Session) (text : String) : Except Failure (Selections × Session) := do
  let (op, s) ← s.submit .silent text true
  return (← Reader.resultOf op, s)

/-- Reads a single expression and keeps its readings. -/
def read (s : Session) (text : String) : Except Failure Session := do
  if s.isClosed then .error .parserClosed
  return { s with readings := Term.sorted (← s.reader.read text) }

/-- Changes the present time. -/
def setClock (s : Session) (now : DateTime) : Session := { s with reader.now := now }

/-- One of the readings that are kept. -/
def pick (s : Session) (index : Nat) : Except Failure Term :=
  match s.readings[index]? with
  | some term => .ok term
  | none => .error .noSuchPart

/-- Makes a schedule of a reading and puts the cursor where it starts. -/
def makeSchedule (s : Session) (index : Nat) (since : Option DateTime) :
    Except Failure (Schedule × Session) := do
  let since := since.getD s.reader.now
  let schedule ← Schedule.ofTerm (← s.pick index) since s.reader.defaultTime
  return (schedule, { s with schedule := some schedule, cursor := since })

/-- The next instant for a reading, whatever its limits say. -/
def snooze (s : Session) (index : Nat) (since : Option DateTime) : Except Failure DateTime := do
  (← s.pick index).snooze (since.getD s.reader.now) s.reader.defaultTime

/-- The schedule that was last made. -/
def current (s : Session) : Except Failure Schedule :=
  match s.schedule with
  | some schedule => .ok schedule
  | none => .error .noSchedule

/-- The first occurrence after the given time. -/
def next (s : Session) (since : DateTime) : Except Failure DateTime := do
  (← s.current).next since

/-- Moves the cursor to the next occurrence. -/
def advance (s : Session) : Except Failure (DateTime × Session) := do
  let time ← s.next s.cursor
  return (time, { s with cursor := time })

/-- Up to `count` occurrences of a repetition. -/
def occurrences (s : Session) (since : DateTime) (count : Nat) :
    Except Failure (List DateTime) := do
  match ← s.current with
  | .repeated schedule => schedule.occurrences since count
  | .once _ => .error .noSchedule

/-- Ends the reading of expressions. -/
def close (s : Session) : Session := { s with isClosed := true }

/-- What a session is asked for. -/
inductive Request
  | submit (listener : Listener) (text : String) (several : Bool)
  | readAll (text : String)
  | read (text : String)
  | setClock (now : DateTime)
  | makeSchedule (index : Nat) (since : Option DateTime)
  | snooze (index : Nat) (since : Option DateTime)
  | next (since : DateTime)
  | advance
  | occurrences (since : DateTime) (count : Nat)
  | close

/-- The session behind a request. -/
def after (s : Session) : Request → Except Failure Session
  | .submit listener text several => return (← s.submit listener text several).2
  | .readAll text => return (← s.readAll text).2
  | .read text => s.read text
  | .setClock now => return s.setClock now
  | .makeSchedule index since => return (← s.makeSchedule index since).2
  | .snooze index since => do
    let _ ← s.snooze index since
    return s
  | .next since => do
    let _ ← s.next since
    return s
  | .advance => return (← s.advance).2
  | .occurrences since count => do
    let _ ← s.occurrences since count
    return s
  | .close => return s.close

/-- The session behind requests in a row, the failed ones of which are passed over. -/
def run (s : Session) : List Request → Session
  | [] => s
  | request :: requests =>
    match s.after request with
    | .ok next => next.run requests
    | .error _ => s.run requests

end Session

end TimePhrase
