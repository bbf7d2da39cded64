import TimePhrase.Main
import TimePhrase.Pattern.Read
import TimePhrase.Proofs.Calendar.Date
import TimePhrase.Reading.Journal
import TimePhrase.Session
import TimePhrase.Task.Lock
import TimePhrase.Proofs.Calendar.DateTime
import TimePhrase.Proofs.Validity
import TimePhrase.Proofs.Part.Range
import TimePhrase.Proofs.Part.Motion
import TimePhrase.Proofs.Occurrence.Plan
import TimePhrase.Proofs.Occurrence.Settle
import TimePhrase.Proofs.Occurrence.Search
import TimePhrase.Proofs.Occurrence.Sound
import TimePhrase.Proofs.Part.Recurrence
import TimePhrase.Proofs.Occurrence.Points
import TimePhrase.Proofs.Occurrence.Least
import TimePhrase.Proofs.Pattern
import TimePhrase.Proofs.Recognizer
import TimePhrase.Proofs.Refusal
import TimePhrase.Proofs.Reading.Chain
import TimePhrase.Proofs.Reading.Steps
import TimePhrase.Proofs.Reading.Tally
import TimePhrase.Proofs.Description.Plain
import TimePhrase.Proofs.Pattern.Trace
import TimePhrase.Proofs.Description.Reread
import TimePhrase.Proofs.Pattern.Lead
import TimePhrase.Proofs.Description.Span
import TimePhrase.Proofs.Description.DayAfter
import TimePhrase.Proofs.Text.Letter
import TimePhrase.Proofs.Description.Whole
import TimePhrase.Proofs.Text.Ordinary
import TimePhrase.Proofs.Reading.Readable
import TimePhrase.Proofs.Description.Ordinary
import TimePhrase.Proofs.Description.Normal
import TimePhrase.Proofs.Evaluation
import TimePhrase.Proofs.Occurrence.Pace
import TimePhrase.Proofs.Occurrence.Monotone
import TimePhrase.Proofs.Occurrence.Repeat
import TimePhrase.Proofs.Occurrence.Offset
import TimePhrase.Proofs.Occurrence.FirstDays
import TimePhrase.Proofs.Occurrence.Creep
import TimePhrase.Proofs.Reading.WellFormed
import TimePhrase.Proofs.Reading.Reached
import TimePhrase.Proofs.Reading.AnyOrder
import TimePhrase.Proofs.Reading.InTurn
import TimePhrase.Proofs.Reading.Parts
import TimePhrase.Proofs.Reading.Completion
import TimePhrase.Proofs.Text.Case
import TimePhrase.Proofs.Pattern.Alike
import TimePhrase.Proofs.Reading.LetterCase
import TimePhrase.Proofs.Description.Kind
import TimePhrase.Proofs.Text.Canonical
import TimePhrase.Proofs.Reading.InvertedTime
import TimePhrase.Proofs.Reading.Distinct
import TimePhrase.Proofs.Settings.Saved
import TimePhrase.Proofs.Occurrence.WordOrder
import TimePhrase.Proofs.Occurrence.Listing
import TimePhrase.Proofs.Reading.DeadEnd
import TimePhrase.Proofs.Pattern.Boundary
import TimePhrase.Proofs.Reading.WholeNumber
import TimePhrase.Proofs.Description.Faithful
import TimePhrase.Proofs.Format
import TimePhrase.Proofs.CommandLine.Presets
import TimePhrase.Proofs.Reading.KnownText
import TimePhrase.Proofs.Reading.DateNumbers
import TimePhrase.Proofs.Reading.FullDate
import TimePhrase.Proofs.Description.Moment
import TimePhrase.Proofs.Occurrence.Weekday
import TimePhrase.Proofs.Occurrence.SpanOrder
import TimePhrase.Proofs.Task.Lock
import TimePhrase.Proofs.Session
