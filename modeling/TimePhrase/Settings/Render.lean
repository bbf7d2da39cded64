import TimePhrase.Settings.Basic

/-!
# Settings in writing

The document in which settings are kept, with a comment on each of them. Strings stand
between quotes just as they are.
-/

namespace TimePhrase.Settings

/-- A string between double quotes. -/
def inQuotes (text : String) : String := "\"" ++ text ++ "\""

/-- The lines of the presets. -/
def presetLines (presets : List String) : List String :=
  "presets = [" :: presets.map (fun preset => "    " ++ inQuotes preset ++ ",") ++ ["]"]

/-- The lines of the document. -/
def lines (s : Settings) : List String :=
  [ "title = " ++ inQuotes s.title,
    "",
    "[parser]",
    "# locale: str = 'en' | 'de'",
    "# the language expressions are written in",
    "locale = " ++ inQuotes s.locale.name,
    "",
    "# max_workers: int",
    "# threads used to explore the alternative readings of an expression",
    "max_workers = " ++ toString s.workers.val,
    "",
    "[schedule]",
    "# default_time: str = 'HH:MM'",
    "# time of day used when an expression names a day but no time,",
    "# e.g. \"every Monday\" or \"on 24.12.\"",
    "default_time = " ++ inQuotes s.defaultTime.text,
    "",
    "[snooze]",
    "# default: str",
    "# the phrase used by \"whenparse snooze\" without an argument",
    "default = " ++ inQuotes s.snooze,
    "",
    "# presets: list[str]",
    "# phrases offered by \"whenparse presets\"" ] ++
  presetLines s.presets ++
  [ "",
    "[ui]",
    "# ampm: bool = true | false",
    "ampm = " ++ toString s.twelveHours,
    "",
    "[logging]",
    "# enabled: bool = true | false",
    "# write parser activity to logs/log_<YYMMDD>.md under the home directory",
    "enabled = " ++ toString s.journal ]

/-- The document. Every line of it ends with a line break. -/
def render (s : Settings) : String :=
  String.join (s.lines.map (· ++ "\n"))

end TimePhrase.Settings
