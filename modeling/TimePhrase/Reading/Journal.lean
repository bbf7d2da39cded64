import TimePhrase.Journal
import TimePhrase.Reading.Order
import TimePhrase.Reading.Run
import TimePhrase.Schedule

/-!
# What is entered in the journals while expressions are read

One entry when an operation starts, one when each of its parts is done, one at its end and
one for each schedule that is made. A part that cannot be looked at to its end is entered in
the journal of what goes wrong.
-/

namespace TimePhrase

open Text (quoted)

/-- The number of an operation in 32 hexadecimal digits, in groups of 8, 4, 4, 4 and 12. -/
def operationName (id : Nat) : String :=
  let digits := Text.hexDigits 32 id
  let group (start length : Nat) := String.ofList ((digits.drop start).take length)
  "-".intercalate [group 0 8, group 8 4, group 12 4, group 16 4, group 20 12]

/-- A failure in the form in which it is entered in a journal. -/
def Failure.label : Failure → String
  | .unknownWord word => s!"KeyError({quoted word})"
  | .numberTooLong digits =>
    s!"ValueError('Exceeds the limit ({Text.maxDigits} digits) for integer string conversion: " ++
      s!"value has {digits} digits; use sys.set_int_max_str_digits() to increase the limit')"
  | failure => (failure.message?).getD ""

/-- What is entered when an operation starts. -/
def Operation.startEntry (op : Operation) : Journal.Entry where
  kind := .log
  caller := "ExpressionParser.submit_multi_expression"
  message := s!"operation {operationName op.id}: parsing {quoted op.text} as " ++
    s!"{op.parts.length} expression(s)"

/-- The outcome of a part in a few words. -/
def Selection.summary (s : Selection) : String :=
  match s.outcome with
  | .ok readings => s!"{readings.length} reading(s)"
  | .error error => error.message

/-- What is entered for a report of an operation. -/
def Notice.entry : Notice → Journal.Entry
  | .branchFailed id index failure =>
    { kind := .bug, caller := "ExpressionParser._run_branch",
      message := s!"operation {operationName id}: expression {index} failed with {failure.label}" }
  | .partDone id selection =>
    { kind := .log, caller := "ExpressionParser._complete_task",
      message := s!"operation {operationName id}: expression {selection.index} " ++
        s!"{quoted selection.text} done, {selection.summary}" }
  | .finished id result _ =>
    { kind := .log, caller := "ExpressionParser._complete_task",
      message := s!"operation {operationName id}: finished with {result.errors.length} error(s)" }

/-- All entries of an operation. -/
def Operation.entries (op : Operation) : List Journal.Entry :=
  op.startEntry :: op.notices.map Notice.entry

/-- What is entered when a schedule is made. -/
def Schedule.entry (schedule : Schedule) (since : DateTime) : Journal.Entry where
  kind := .log
  caller := "ExpressionParser.parse_schedule"
  message := s!"schedule for {quoted schedule.term.text} since {since.minuteStamp}"

/-- Reads a single expression and makes a schedule of each of its readings, and answers with the
journal entries of both. Readings without a schedule leave no entry. -/
def Reader.entries (reader : Reader) (text : String) (since : DateTime) :
    Operation × List Journal.Entry :=
  let op := reader.submit .silent 0 [] text false
  let terms := match resultOf op with
    | .ok result => Term.sorted (result.parts.flatMap Selection.readings)
    | .error _ => []
  let schedules := terms.filterMap fun term =>
    (Schedule.ofTerm term since reader.defaultTime).toOption
  (op, op.entries ++ schedules.map (·.entry since))

end TimePhrase
