import TimePhrase.Proofs.Toml.Line
import TimePhrase.Settings.Check
import TimePhrase.Settings.Render

/-!
# The form of settings is read back

Settings are written by filling a form. The form puts strings between quotes as they are, so the
settings come back from it exactly when each of their strings says what it is. The pieces of the
form are read one after the other: in one direction they lead to the whole document, and in the
other each string in turn is found to say what it is, which lets the next piece be read.
-/

namespace TimePhrase.Settings

open Toml (Table Value Verbatim)
open Toml.Document (ofLines ofLines_append ofLines_cons reads_entry reads_header reads_line
  verbatim_of_ends)

variable (s : Settings)

/-- All strings say between quotes what they are. -/
structure Plain : Prop where
  title : Verbatim s.title.toList
  defaultTime : Verbatim s.defaultTime.text.toList
  snooze : Verbatim s.snooze.toList
  presets : ∀ preset ∈ s.presets, Verbatim preset.toList

/-! ## The document, piece by piece -/

/-- The document in a section of the form, after the sections in front of it. -/
def inSection (content : Table) (headers : List String) (frozen : List (List String)) :
    Toml.Document :=
  ⟨content, headers.getLast?.toList, headers.reverse.map ([·]), [], frozen⟩

/-- The document when its title has been read. -/
def afterTitle : Toml.Document := inSection [("title", .text s.title)] [] []

/-- The entries of the first section. -/
def parserTable : Table :=
  [("locale", .text s.locale.name), ("max_workers", .integer s.workers.val)]

/-- The document in front of the time of day. -/
def beforeTime : Toml.Document :=
  inSection [("title", .text s.title), ("parser", .table s.parserTable), ("schedule", .table [])]
    ["parser", "schedule"] []

/-- The document up to the time of day. -/
def upToTime : Table :=
  [ ("title", .text s.title), ("parser", .table s.parserTable),
    ("schedule", .table [("default_time", .text s.defaultTime.text)]) ]

/-- The document behind the time of day. -/
def afterTime : Toml.Document := inSection s.upToTime ["parser", "schedule"] []

/-- The document in front of the expression for reminders. -/
def beforeSnooze : Toml.Document :=
  inSection (s.upToTime ++ [("snooze", .table [])]) ["parser", "schedule", "snooze"] []

/-- The document behind the expression for reminders. -/
def afterSnooze : Toml.Document :=
  inSection (s.upToTime ++ [("snooze", .table [("default", .text s.snooze)])])
    ["parser", "schedule", "snooze"] []

/-- The entries of the section on reminders. -/
def snoozeTable : Table :=
  [("default", .text s.snooze), ("presets", .array (s.presets.map .text))]

/-- The document behind the presets. -/
def afterPresets : Toml.Document :=
  inSection (s.upToTime ++ [("snooze", .table s.snoozeTable)]) ["parser", "schedule", "snooze"]
    [["snooze", "presets"]]

/-- The table that the whole document describes. -/
def table : Table :=
  s.upToTime ++
    [ ("snooze", .table s.snoozeTable), ("ui", .table [("ampm", .boolean s.twelveHours)]),
      ("logging", .table [("enabled", .boolean s.journal)]) ]

/-- The whole document. -/
def whole : Toml.Document :=
  inSection s.table ["parser", "schedule", "snooze", "ui", "logging"] [["snooze", "presets"]]

theorem reads_title (h : Verbatim s.title.toList) :
    Toml.Document.empty.Reads ["title = " ++ inQuotes s.title] s.afterTitle :=
  reads_line "title" (by simp [inQuotes]) (by decide) (Toml.standsFor_text h) rfl

theorem verbatim_name (locale : Locale) : Verbatim locale.name.toList := by
  cases locale <;> decide

theorem reads_languageSection : s.afterTitle.Reads
    [ "",
      "[parser]",
      "# locale: str = 'en' | 'de'",
      "# the language expressions are written in",
      "locale = " ++ inQuotes s.locale.name,
      "",
      "# max_workers: int",
      "# threads used to explore the alternative readings of an expression",
      "max_workers = " ++ toString s.workers.val,
      "",
      "[schedule]",
      "# default_time: str = 'HH:MM'",
      "# time of day used when an expression names a day but no time,",
      "# e.g. \"every Monday\" or \"on 24.12.\"" ] s.beforeTime := by
  have hdigits : (Nat.toDigits 10 s.workers.val).length ≤ 2 :=
    (Nat.length_toDigits_le_iff (by decide) (by decide)).2 (by have := s.workers.2; omega)
  refine .remark (by decide) <| .cons (reads_header "parser" rfl (by decide) rfl) <|
    .remark (by decide) <| .remark (by decide) <|
    .cons (reads_line "locale" ?_ (by decide)
      (Toml.standsFor_text (verbatim_name s.locale)) rfl) <|
    .remark (by decide) <| .remark (by decide) <| .remark (by decide) <|
    .cons (reads_line "max_workers" ?_ (by decide)
      (Toml.standsFor_number s.workers.2.1 (by simp [Text.maxDigits]; omega)) rfl) <|
    .remark (by decide) <| .cons (reads_header "schedule" rfl (by decide) rfl) <|
    .remark (by decide) <| .remark (by decide) <| .remark (by decide) .nil
  · simp [inQuotes]
  · simp

theorem reads_time (h : Verbatim s.defaultTime.text.toList) :
    s.beforeTime.Reads ["default_time = " ++ inQuotes s.defaultTime.text] s.afterTime :=
  reads_line "default_time" (by simp [inQuotes]) (by decide) (Toml.standsFor_text h) rfl

theorem reads_reminders : s.afterTime.Reads
    [ "",
      "[snooze]",
      "# default: str",
      "# the phrase used by \"whenparse snooze\" without an argument" ] s.beforeSnooze :=
  .remark (by decide) <| .cons (reads_header "snooze" rfl (by decide) rfl) <|
    .remark (by decide) <| .remark (by decide) .nil

theorem reads_snooze (h : Verbatim s.snooze.toList) :
    s.beforeSnooze.Reads ["default = " ++ inQuotes s.snooze] s.afterSnooze :=
  reads_line "default" (by simp [inQuotes]) (by decide) (Toml.standsFor_text h) rfl

theorem reads_offers : s.afterSnooze.Reads
    [ "",
      "# presets: list[str]",
      "# phrases offered by \"whenparse presets\"" ] s.afterSnooze :=
  .remark (by decide) <| .remark (by decide) <| .remark (by decide) .nil

theorem ofLines_presetLines (presets : List String) :
    ofLines (presetLines presets) = "presets".toList ++ ' ' :: '=' :: ' ' :: '[' ::
      (Toml.rows (presets.map String.toList) ++ "\n]\n".toList) := by
  have hrows : '\n' :: ofLines
        (presets.map fun preset => "    " ++ inQuotes preset ++ ",") =
      Toml.rows (presets.map String.toList) ++ ['\n'] := by
    induction presets with
    | nil => rfl
    | cons preset presets ih =>
      rw [List.map_cons, ofLines_cons, ih]
      simp [Toml.rows, inQuotes]
  rw [presetLines, List.cons_append, ofLines_cons, ofLines_append,
    ← List.cons_append, hrows]
  simp [ofLines]

theorem reads_presets (h : ∀ preset ∈ s.presets, Verbatim preset.toList) :
    s.afterSnooze.Reads (presetLines s.presets) s.afterPresets :=
  reads_entry "presets" (by simp [presetLines]) (by simp [ofLines_presetLines])
    (by decide) (Toml.standsFor_texts h) rfl

theorem reads_rest : s.afterPresets.Reads
    [ "",
      "[ui]",
      "# ampm: bool = true | false",
      "ampm = " ++ toString s.twelveHours,
      "",
      "[logging]",
      "# enabled: bool = true | false",
      "# write parser activity to logs/log_<YYMMDD>.md under the home directory",
      "enabled = " ++ toString s.journal ] s.whole := by
  refine .remark (by decide) <| .cons (reads_header "ui" rfl (by decide) rfl) <|
    .remark (by decide) <|
    .cons (reads_line "ampm" ?_ (by decide) (Toml.standsFor_truth s.twelveHours) rfl) <|
    .remark (by decide) <| .cons (reads_header "logging" rfl (by decide) rfl) <|
    .remark (by decide) <| .remark (by decide) <|
    .cons (reads_line "enabled" ?_ (by decide) (Toml.standsFor_truth s.journal) rfl) .nil
  · simp
  · simp

theorem reads_lines (h : s.Plain) : Toml.Document.empty.Reads s.lines s.whole :=
  (s.reads_title h.title).trans <| s.reads_languageSection.trans <|
    (s.reads_time h.defaultTime).trans <| s.reads_reminders.trans <|
    (s.reads_snooze h.snooze).trans <| s.reads_offers.trans <|
    (s.reads_presets h.presets).trans s.reads_rest

/-! ## From the document to the settings -/

theorem of?_text (time : WrittenTime) : WrittenTime.of? time.text = some time := by
  unfold WrittenTime.of?
  split
  · next found hfound =>
    obtain rfl := Option.some.inj (hfound.symm.trans time.reads)
    rfl
  · next hnone => cases hnone.symm.trans time.reads

theorem strings?_text (texts : List String) : strings? (.array (texts.map .text)) = some texts := by
  induction texts with
  | nil => rfl
  | cons text texts ih => simp_all [strings?, string?]

theorem ofTable?_table : ofTable? s.table = some s := by
  have hlocale : locale? (.text s.locale.name) = some s.locale := by
    cases s.locale <;> rfl
  have hworkers : workers? (.integer s.workers.val) = some s.workers := by
    have hwhole : whole? (.integer s.workers.val) = some s.workers.val := by
      simp [whole?, Int.not_lt.2 (Int.natCast_nonneg s.workers.val)]
    simp only [workers?, hwhole, Option.bind_eq_bind, Option.bind_some, dif_pos s.workers.2]
  have htime : time? (.text s.defaultTime.text) = some s.defaultTime := of?_text s.defaultTime
  have hpresets := strings?_text s.presets
  simp [ofTable?, table, upToTime, parserTable, snoozeTable, setting, Table.get?, table?, string?,
    truth?, hlocale, hworkers, htime, hpresets]

theorem toList_render : s.render.toList = ofLines s.lines := by
  simp [render, ofLines, List.flatMap_map]

/-- Settings whose strings say what they are come back from the document. -/
theorem ofText_of_plain (h : s.Plain) : ofText s.render = .ok s := by
  have hread : Toml.read s.render = .ok s.table := (s.reads_lines h).read s.toList_render
  rw [ofText, hread]
  simp [ofTable?_table]

/-! ## From the settings back to the document -/

variable {s}

theorem text_of_of? {text : String} {time : WrittenTime} (h : WrittenTime.of? text = some time) :
    time.text = text := by
  unfold WrittenTime.of? at h
  split at h
  · cases h
    rfl
  · cases h

/-- An array that ends with a table is no array of strings. -/
theorem strings?_concat_table (items : List Value) (t : Table) :
    strings? (.array (items ++ [.table t])) = none := by
  simp [strings?, string?]

/-- The value is the array as it was, or is no array of strings any more. -/
def Remains (items : List Value) (value : Value) : Prop :=
  value = .array items ∨ strings? value = none

theorem lasting_remains (items : List Value) : Toml.Lasting (Remains items) where
  inTable _ _ _ := .inr rfl
  inLast _ _ _ _ _ := .inr (strings?_concat_table _ _)
  inNew _ _ := .inr (strings?_concat_table _ _)

theorem read_of_setting {α : Type} {read : Value → Option α} {t : Table} {key : String}
    {standard x : α} {value : Value} (h : setting read t key standard = some x)
    (hvalue : t.get? key = some value) : read value = some x := by
  simpa [setting, hvalue] using h

/-- What the settings say of the table that they have been read from. -/
structure ReadFrom (s : Settings) (t : Table) : Prop where
  title : ∀ text, t.HasAt (· = .text text) ["title"] → text = s.title
  defaultTime : ∀ text,
    t.HasAt (· = .text text) ["schedule", "default_time"] → text = s.defaultTime.text
  snooze : ∀ text, t.HasAt (· = .text text) ["snooze", "default"] → text = s.snooze
  presets : ∀ items,
    t.HasAt (Remains items) ["snooze", "presets"] → strings? (.array items) = some s.presets

theorem table_of_setting {t inner found : Table} {key : String}
    (h : setting table? t key [] = some found) (hinner : t.get? key = some (.table inner)) :
    inner = found := by
  simpa [table?] using read_of_setting h hinner

theorem text_of_setting {t : Table} {key text found standard : String}
    (h : setting string? t key standard = some found) (htext : t.get? key = some (.text text)) :
    text = found := by
  simpa [string?] using read_of_setting h htext

theorem readFrom_of_ofTable? {t : Table} (h : ofTable? t = some s) : s.ReadFrom t := by
  unfold ofTable? at h
  obtain ⟨parser, -, h⟩ := Option.bind_eq_some_iff.1 h
  obtain ⟨schedule, hschedule, h⟩ := Option.bind_eq_some_iff.1 h
  obtain ⟨snooze, hsnooze, h⟩ := Option.bind_eq_some_iff.1 h
  obtain ⟨ui, -, h⟩ := Option.bind_eq_some_iff.1 h
  obtain ⟨logging, -, h⟩ := Option.bind_eq_some_iff.1 h
  obtain ⟨title, htitle, h⟩ := Option.bind_eq_some_iff.1 h
  obtain ⟨locale, -, h⟩ := Option.bind_eq_some_iff.1 h
  obtain ⟨workers, -, h⟩ := Option.bind_eq_some_iff.1 h
  obtain ⟨time, htime, h⟩ := Option.bind_eq_some_iff.1 h
  obtain ⟨phrase, hphrase, h⟩ := Option.bind_eq_some_iff.1 h
  obtain ⟨presets, hpresets, h⟩ := Option.bind_eq_some_iff.1 h
  obtain ⟨twelveHours, -, h⟩ := Option.bind_eq_some_iff.1 h
  obtain ⟨journal, -, h⟩ := Option.bind_eq_some_iff.1 h
  cases h
  refine ⟨?_, ?_, ?_, ?_⟩
  · rintro text ⟨value, hvalue, rfl⟩
    exact text_of_setting htitle hvalue
  · rintro text ⟨inner, hinner, value, hvalue, rfl⟩
    obtain rfl := table_of_setting hschedule hinner
    exact (text_of_of? (read_of_setting htime hvalue)).symm
  · rintro text ⟨inner, hinner, value, hvalue, rfl⟩
    obtain rfl := table_of_setting hsnooze hinner
    exact text_of_setting hphrase hvalue
  · rintro items ⟨inner, hinner, value, hvalue, hvalue'⟩
    obtain rfl := table_of_setting hsnooze hinner
    have hread := read_of_setting hpresets hvalue
    rcases hvalue' with rfl | hnone
    · exact hread
    · cases hnone.symm.trans hread

theorem eq_of_strings? {items : List Value} {texts : List String}
    (h : strings? (.array items) = some texts) : items = texts.map .text := by
  induction items generalizing texts with
  | nil =>
    cases h
    rfl
  | cons item items ih =>
    rw [strings?, List.mapM_cons] at h
    obtain ⟨text, htext, h⟩ := Option.bind_eq_some_iff.1 h
    obtain ⟨more, hmore, h⟩ := Option.bind_eq_some_iff.1 h
    cases h
    cases item <;> cases htext
    rw [ih hmore, List.map_cons]

/-- If the presets have their value in the end, then they say what they are. -/
theorem verbatim_of_presets {presets more : List String} {d d' : Toml.Document}
    (h : d.Ends (presetLines presets ++ more) d')
    (hvalue : ∀ items, d'.content.HasAt (Remains items) ["snooze", "presets"] →
      strings? (.array items) = some presets)
    (hput : ∀ items, ∃ d', d.put ["presets"] (.array items) = .ok d' ∧
      d'.content.HasAt (Remains items) ["snooze", "presets"]) :
    ∀ preset ∈ presets, Verbatim preset.toList := by
  have hlines : Toml.unifyLineEnds (ofLines (presetLines presets ++ more)) =
      "presets".toList ++ ' ' :: '=' :: ' ' :: '[' ::
        (Toml.rows (presets.map (Toml.unifyLineEnds ·.toList)) ++ "\n]".toList ++
          Toml.unifyLineEnds ('\n' :: ofLines more)) := by
    have htext : ofLines (presetLines presets ++ more) = "presets = [".toList ++
        (Toml.rows (presets.map String.toList) ++ "\n]".toList ++ '\n' :: ofLines more) := by
      simp [ofLines_append, ofLines_presetLines]
    rw [htext, Toml.unifyLineEnds_append _ (by decide), Toml.unifyLineEnds_rows, List.map_map]
    rfl
  obtain ⟨fuel, value, rest, d₁, htake, hput₁, hlast⟩ :=
    Toml.Document.exists_of_ends (by decide) (by simp [Toml.skipBlanks, Toml.isBlank]) hlines h
  obtain ⟨items, rfl⟩ := Toml.array_of_takeValue htake
  obtain ⟨d₂, hput₂, hhas⟩ := hput items
  obtain rfl := Except.ok.inj (hput₁.symm.trans hput₂)
  have hitems := hvalue items (hlast _ (lasting_remains items) _ hhas)
  obtain rfl := eq_of_strings? hitems
  exact Toml.verbatim_of_takeValue htake

/-- The strings of settings that come back from the document say what they are. They are met in
the order of the document: up to each of them, all has been read as it was written. -/
theorem plain_of_ofText (h : ofText s.render = .ok s) : s.Plain := by
  obtain ⟨t, hread, htable⟩ : ∃ t, Toml.read s.render = .ok t ∧ ofTable? t = some s := by
    unfold ofText at h
    split at h
    · cases h
    · cases h
    · next t hread =>
      split at h
      · next htable =>
        cases h
        exact ⟨t, hread, htable⟩
      · cases h
  obtain ⟨title, time, snooze, presets⟩ := readFrom_of_ofTable? htable
  obtain ⟨d, rfl, hends⟩ := Toml.Document.ends_of_read hread s.toList_render
  have htitle : Verbatim s.title.toList :=
    verbatim_of_ends "title" '[' hends title (by simp [inQuotes]) (by decide)
      (fun text => ⟨_, rfl, _, rfl, rfl⟩) (by decide) 2 rfl
  have hends := s.reads_languageSection.ends ((s.reads_title htitle).ends hends)
  have htime : Verbatim s.defaultTime.text.toList :=
    verbatim_of_ends "default_time" '[' hends time (by simp [inQuotes])
      (by decide) (fun text => ⟨_, rfl, _, rfl, _, rfl, rfl⟩) (by decide) 2 rfl
  have hends := s.reads_reminders.ends ((s.reads_time htime).ends hends)
  have hsnooze : Verbatim s.snooze.toList :=
    verbatim_of_ends "default" '#' hends snooze (by simp [inQuotes])
      (by decide) (fun text => ⟨_, rfl, _, rfl, _, rfl, rfl⟩) (by decide) 2 rfl
  have hends := s.reads_offers.ends ((s.reads_snooze hsnooze).ends hends)
  exact ⟨htitle, htime, hsnooze, verbatim_of_presets hends presets
    fun items => ⟨_, rfl, _, rfl, _, rfl, .inl rfl⟩⟩

/-- Settings come back from the form exactly if all their strings say what they are. -/
theorem ofText_render_iff : ofText s.render = .ok s ↔ s.Plain :=
  ⟨plain_of_ofText, ofText_of_plain s⟩

end TimePhrase.Settings
