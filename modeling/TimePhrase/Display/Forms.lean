/-!
# The forms of expressions

Short lines that tell how each part of an expression can be written, for parts that occur
once and for parts that repeat.
-/

namespace TimePhrase

/-- The names of parts and the forms in which they are written. -/
def expressionForms (looped : Bool) : List (String × String) :=
  if looped then
    [("Date", "every <day>.<month>., e.g. 'every 24.12.'"),
      ("Day of month", "every <n>th, e.g. 'every 15th'"),
      ("Weekday", "every <weekday>, e.g. 'every Monday'"),
      ("Month", "every <month>, e.g. 'every March'"),
      ("Span", "every [<n>] <unit> [and ...], e.g. 'every 2 weeks'"),
      ("Limit", "<repetition> from <time> until <time>")]
  else
    [("Time", "[at] <time> [o'clock], e.g. 'at 9:30', '5 pm'"),
      ("Time", "<minutes> past|to <hour>, e.g. 'quarter past 5', '10 to 7 pm'"),
      ("Date", "[on] <day>.<month>.[<year>], e.g. 'on 24.12.', '1.5.2025'"),
      ("Day of month", "[on the] <n>th [of], e.g. 'on the 5th'"),
      ("Weekday", "[on|next] <weekday>, e.g. 'on Friday'"),
      ("Month", "[in|next] <month>, e.g. 'in March'"),
      ("Year", "[in] <year>, e.g. 'in 2030'"),
      ("Span", "[in] <n> <unit> [and ...], e.g. 'in 2 days and 3 hours'"),
      ("Keyword", "today | tomorrow | day after tomorrow")]

end TimePhrase
