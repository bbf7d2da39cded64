import TimePhrase.CommandLine.Commands
import TimePhrase.Console.Table
import TimePhrase.Proofs.Evaluation
import TimePhrase.Proofs.Reading.Distinct
import TimePhrase.Proofs.Reading.Parts

/-!
# The table of presets

The presets are read as one input, so the table has a row for each phrase between semicolons that
is not blank, and for nothing else. It shows where the phrase leads that is read alone. Presets
that are one phrase each have one row each.
-/

namespace TimePhrase

namespace Text

variable {text : List Char}

theorem pieces_blank_cons {c : Char} (hblank : isBlank c = true) (hc : c ≠ ';')
    (text : List Char) : pieces (c :: text) = pieces text := by
  have hstrip (piece : List Char) : strip (c :: piece) = strip piece := by
    simp [strip, stripStart, hblank]
  obtain ⟨piece, others, hsplit⟩ := List.exists_cons_of_ne_nil (List.splitOn_ne_nil ';' text)
  rw [pieces, pieces, List.splitOn_cons_eq_if_modifyHead, if_neg (by simpa using hc), hsplit]
  simp [hstrip]

theorem pieces_eq_singleton (h : ';' ∉ text) (hne : strip text ≠ []) :
    pieces text = [strip text] := by
  rw [pieces, List.splitOn_eq_singleton h]
  simp [hne]

theorem pieces_intercalate (texts : List String) :
    pieces ("; ".intercalate texts).toList = texts.flatMap fun text => pieces text.toList := by
  induction texts with
  | nil => decide
  | cons text others ih =>
    cases others with
    | nil => simp
    | cons other others =>
      have hlist : ("; ".intercalate (text :: other :: others)).toList =
          text.toList ++ ';' :: ' ' :: ("; ".intercalate (other :: others)).toList := by
        rw [String.intercalate_cons_of_ne_nil (List.cons_ne_nil _ _)]
        simp
      rw [hlist, pieces_append, pieces_blank_cons (by decide) (by decide), ih]
      rfl

end Text

/-- A computation that succeeds for each item of a list succeeds for all of them in a row. -/
theorem exists_mapM_eq_ok {ε α β : Type} {f : α → Except ε β} {items : List α}
    (h : ∀ a ∈ items, ∃ b, f a = .ok b) :
    ∃ results, items.mapM f = .ok results ∧ results.length = items.length ∧
      ∀ (i : Nat) (a : α), items[i]? = some a → results[i]? = (f a).toOption := by
  induction items with
  | nil => exact ⟨[], rfl, rfl, nofun⟩
  | cons a items ih =>
    obtain ⟨⟨b, hb⟩, hitems⟩ := List.forall_mem_cons.1 h
    obtain ⟨results, hresults, hlength, heach⟩ := ih hitems
    refine ⟨b :: results, ?_, congrArg (· + 1) hlength, ?_⟩
    · rw [List.mapM_cons, hb, ok_bind, hresults, ok_bind, pure_eq_ok]
    · intro i a' ha'
      cases i with
      | zero =>
        obtain rfl := Option.some.inj ha'
        rw [hb]
        rfl
      | succ i => exact heach i a' ha'

/-- No item has a smaller key than the one that is sorted to the front. -/
theorem key_le_of_sortByKey {α : Type} {key : α → String} {items rest : List α} {first : α}
    (h : sortByKey key items = first :: rest) : ∀ item ∈ items, key first ≤ key item := by
  induction items generalizing first rest with
  | nil => cases h
  | cons item items ih =>
    have hsort : insertByKey key item (sortByKey key items) = first :: rest := h
    cases hitems : sortByKey key items with
    | nil =>
      rw [hitems] at hsort
      obtain ⟨rfl, -⟩ := List.cons.inj hsort
      have hnil : items = [] := (hitems ▸ sortByKey_perm key items).symm.eq_nil
      subst hnil
      intro other hother
      obtain rfl := List.mem_singleton.1 hother
      exact String.le_refl _
    | cons least others =>
      rw [hitems, insertByKey] at hsort
      have hleast := ih hitems
      rw [List.forall_mem_cons]
      split at hsort
      · rename_i hlt
        obtain ⟨rfl, -⟩ := List.cons.inj hsort
        exact ⟨(String.le_total _ _).resolve_right (String.not_le.2 hlt), hleast⟩
      · rename_i hlt
        obtain ⟨rfl, -⟩ := List.cons.inj hsort
        refine ⟨String.le_refl _, fun other hother => ?_⟩
        exact String.le_trans (String.not_lt.1 hlt) (hleast other hother)

theorem Term.exists_sortByText {readings : List Term} (h : readings ≠ []) :
    ∃ term rest, Term.sortByText readings = term :: rest ∧ term ∈ readings ∧
      ∀ other ∈ readings, term.text ≤ other.text := by
  have hperm : (Term.sortByText readings).Perm readings := sortByKey_perm Term.text readings
  cases hsort : Term.sortByText readings with
  | nil =>
    rw [hsort] at hperm
    exact absurd hperm.symm.eq_nil h
  | cons term rest =>
    rw [hsort] at hperm
    exact ⟨term, rest, rfl, hperm.mem_iff.1 List.mem_cons_self, key_le_of_sortByKey hsort⟩

theorem Reader.evaluates_snooze {reader : Reader} {text : String} {readings : List Term}
    {term : Term} (h : reader.read text = .ok readings) (hmem : term ∈ readings)
    (since : DateTime) : Evaluates (term.snooze since reader.defaultTime) := by
  obtain ⟨hevaluable, -⟩ := (wellFormed_of_mem_readingsOf (mem_readingsOf_of_read h hmem)).evaluable
  exact hevaluable.next (evaluates_ok Bounds.none)

namespace CommandLine

/-- The phrases that presets hold. If all of them are blank, they are one phrase together. -/
def phrases (presets : List String) : List (List Char) :=
  let pieces := presets.flatMap fun preset => Text.pieces preset.toList
  if pieces = [] then [Text.strip ("; ".intercalate presets).toList] else pieces

theorem split_presets (locale : Locale) (presets : List String) :
    locale.split ("; ".intercalate presets) = phrases presets := by
  rw [Locale.split_eq, Text.pieces_intercalate]
  rfl

/-- Presets that are one phrase each are the phrases that they hold. -/
theorem phrases_eq_map {presets : List String} (hne : presets ≠ [])
    (hsingle : ∀ preset ∈ presets, Text.strip preset.toList ≠ [] ∧ ';' ∉ preset.toList) :
    phrases presets = presets.map (Text.strip ·.toList) := by
  have hpieces : (presets.flatMap fun preset => Text.pieces preset.toList) =
      presets.map (Text.strip ·.toList) := by
    rw [List.map_eq_flatMap]
    refine List.flatMap_congr fun preset hpreset => ?_
    obtain ⟨hblank, hsemicolon⟩ := hsingle preset hpreset
    exact Text.pieces_eq_singleton hsemicolon hblank
  rw [phrases, hpieces, if_neg (by simpa using hne)]

/-- Where a phrase leads that is read alone. Of several readings the first one by description
counts. -/
inductive LeadsTo (settings : Settings) (now since : DateTime) (phrase : String) : String → Prop
  | unread {error : ExpressionError}
    (hread : (settings.reader now).read phrase = .error (.expression error)) :
    LeadsTo settings now since phrase (inRed error)
  | time {readings : List Term} {term : Term} {time : DateTime}
    (hread : (settings.reader now).read phrase = .ok readings)
    (hmem : term ∈ readings) (hfirst : ∀ other ∈ readings, term.text ≤ other.text)
    (htime : term.snooze since settings.defaultTime.time.timeOfDay = .ok time) :
    LeadsTo settings now since phrase (tellTime settings since time)
  | fault {readings : List Term} {term : Term} {error : ExpressionError}
    (hread : (settings.reader now).read phrase = .ok readings)
    (hmem : term ∈ readings) (hfirst : ∀ other ∈ readings, term.text ≤ other.text)
    (hfault : term.snooze since settings.defaultTime.time.timeOfDay =
      .error (.expression error)) :
    LeadsTo settings now since phrase (inRed error)

/-- The rows number the phrases and show where each of them leads. -/
def Tabulates (settings : Settings) (now since : DateTime) (phrases : List (List Char))
    (rows : List (List String)) : Prop :=
  rows.length = phrases.length ∧ ∀ i phrase, phrases[i]? = some phrase →
    ∃ target, rows[i]? = some [toString (i + 1), String.ofList phrase, target] ∧
      LeadsTo settings now since (String.ofList phrase) target

section

variable {settings : Settings} {now since : DateTime}

theorem exists_presetTarget {text : List Char} (hanswers : (settings.reader now).Answers text)
    (hstrip : Text.strip text = text) (index : Nat) :
    ∃ target, presetTarget settings since ((settings.reader now).selectionOf index text) =
        .ok target ∧ LeadsTo settings now since (String.ofList text) target := by
  have hread : (settings.reader now).read (String.ofList text) =
      ((settings.reader now).selectionOf index text).answer := by
    rw [Reader.read_eq_answer, String.toList_ofList, hstrip,
      Reader.failureOf_eq_none_iff.2 hanswers]
    rfl
  have hsome := (settings.reader now).selectionOf_outcome index text
  rw [Selection.answer] at hread
  rw [presetTarget]
  cases houtcome : ((settings.reader now).selectionOf index text).outcome with
  | error error =>
    rw [houtcome] at hread
    exact ⟨inRed error, rfl, .unread hread⟩
  | ok readings =>
    rw [houtcome] at hread hsome
    obtain ⟨term, rest, hsort, hmem, hfirst⟩ :=
      Term.exists_sortByText (fun hnil => hsome (congrArg Except.ok hnil))
    have hsnooze : Evaluates (term.snooze since settings.defaultTime.time.timeOfDay) :=
      Reader.evaluates_snooze hread hmem since
    simp only [hsort]
    cases htime : term.snooze since settings.defaultTime.time.timeOfDay with
    | ok time => exact ⟨_, rfl, .time hread hmem hfirst htime⟩
    | error failure =>
      obtain ⟨error, rfl, -⟩ := hsnooze failure htime
      exact ⟨_, rfl, .fault hread hmem hfirst htime⟩

/-- The row for what has been found out about a phrase. -/
def presetRow (settings : Settings) (since : DateTime) (entry : Selection × Nat) :
    Except Failure (List String) := do
  return [toString (entry.2 + 1), entry.1.text, ← presetTarget settings since entry.1]

theorem exists_presetRow {text : List Char} (hanswers : (settings.reader now).Answers text)
    (hstrip : Text.strip text = text) (index : Nat) :
    ∃ target, presetRow settings since ((settings.reader now).selectionOf index text, index) =
        .ok [toString (index + 1), String.ofList text, target] ∧
      LeadsTo settings now since (String.ofList text) target := by
  obtain ⟨target, htarget, hleads⟩ := exists_presetTarget hanswers hstrip index
  refine ⟨target, ?_, hleads⟩
  rw [presetRow, htarget]
  rfl

theorem presetRows_of_answers (hanswers : ∀ phrase ∈ phrases settings.presets,
    (settings.reader now).Answers phrase) :
    ∃ rows, presetRows settings now since = .ok rows ∧
      Tabulates settings now since (phrases settings.presets) rows := by
  have hsplit : (settings.reader now).locale.split ("; ".intercalate settings.presets) =
      phrases settings.presets := split_presets _ _
  have hstrip : ∀ phrase ∈ phrases settings.presets, Text.strip phrase = phrase := by
    intro phrase hphrase
    rw [← hsplit] at hphrase
    exact (Locale.of_mem_split hphrase).1
  have hread : (settings.reader now).readAll ("; ".intercalate settings.presets) = .ok
      ⟨"; ".intercalate settings.presets,
        (phrases settings.presets).mapIdx (settings.reader now).selectionOf⟩ := by
    rw [← hsplit] at hanswers ⊢
    exact Reader.readAll_eq_ok_iff.2 ⟨hanswers, rfl⟩
  generalize phrases settings.presets = phrases at *
  let entries := (phrases.mapIdx (settings.reader now).selectionOf).zipIdx
  have hentries (i : Nat) : entries[i]? =
      phrases[i]?.map fun phrase => ((settings.reader now).selectionOf i phrase, i) := by
    simp [entries, Function.comp_def]
  have hrow {i : Nat} {phrase : List Char} (h : phrases[i]? = some phrase) :
      ∃ target, presetRow settings since ((settings.reader now).selectionOf i phrase, i) =
          .ok [toString (i + 1), String.ofList phrase, target] ∧
        LeadsTo settings now since (String.ofList phrase) target := by
    have hmem := List.mem_of_getElem? h
    exact exists_presetRow (hanswers phrase hmem) (hstrip phrase hmem) i
  have hall : ∀ entry ∈ entries, ∃ row, presetRow settings since entry = .ok row := by
    intro entry hentry
    obtain ⟨i, hi⟩ := List.mem_iff_getElem?.1 hentry
    rw [hentries] at hi
    obtain ⟨phrase, hphrase, rfl⟩ := Option.map_eq_some_iff.1 hi
    obtain ⟨target, htarget, -⟩ := hrow hphrase
    exact ⟨_, htarget⟩
  obtain ⟨rows, hrows, hlength, heach⟩ := exists_mapM_eq_ok hall
  refine ⟨rows, ?_, ?_, ?_⟩
  · rw [presetRows, hread, ok_bind]
    exact hrows
  · simpa [entries] using hlength
  · intro i phrase hphrase
    obtain ⟨target, htarget, hleads⟩ := hrow hphrase
    refine ⟨target, ?_, hleads⟩
    have hfound := heach i _ (by rw [hentries, hphrase]; rfl)
    rw [htarget] at hfound
    exact hfound

/-- Blanks at the ends of a text do not matter. -/
theorem read_strip (reader : Reader) (text : String) :
    reader.read (String.ofList (Text.strip text.toList)) = reader.read text := by
  rw [Reader.read_eq_answer, Reader.read_eq_answer, String.toList_ofList, Text.strip_strip]

end

/-- The table of presets has rows if no recognizer fails on the way through a phrase, as in ordinary
text, and it is shown if the console can show it. There is a row for each phrase, which tells where
the phrase leads that is read alone. Presets that are one phrase each are the phrases. -/
theorem runPresets_rows (c : Context) (since : Option DateTime) :
    ((∃ rows, presetRows c.settings c.now (since.getD c.now) = .ok rows) ↔
      ∀ phrase ∈ phrases c.settings.presets, c.reader.Answers phrase) ∧
    (Text.Ordinary ("; ".intercalate c.settings.presets).toList →
      ∃ rows, presetRows c.settings c.now (since.getD c.now) = .ok rows) ∧
    (∀ shown, runPresets c since = .done shown ↔
      ∃ rows, presetRows c.settings c.now (since.getD c.now) = .ok rows ∧
        c.console.table (presetTable rows) = .ok shown) ∧
    (∀ rows, presetRows c.settings c.now (since.getD c.now) = .ok rows →
      Tabulates c.settings c.now (since.getD c.now) (phrases c.settings.presets) rows) ∧
    (c.settings.presets ≠ [] → (∀ preset ∈ c.settings.presets,
        Text.strip preset.toList ≠ [] ∧ ';' ∉ preset.toList) →
      phrases c.settings.presets = c.settings.presets.map (Text.strip ·.toList) ∧
        ∀ preset ∈ c.settings.presets,
          c.reader.read (String.ofList (Text.strip preset.toList)) = c.reader.read preset) := by
  have hrows (hall : ∀ phrase ∈ phrases c.settings.presets, c.reader.Answers phrase) :=
    @presetRows_of_answers c.settings c.now (since.getD c.now) hall
  have hanswers {rows : List (List String)}
      (h : presetRows c.settings c.now (since.getD c.now) = .ok rows) :
      ∀ phrase ∈ phrases c.settings.presets, c.reader.Answers phrase := by
    obtain ⟨result, hresult, -⟩ := bind_eq_ok_iff.1 h
    have hall := (Reader.readAll_eq_ok_iff.1 hresult).1
    rwa [split_presets] at hall
  refine ⟨⟨fun ⟨rows, h⟩ => hanswers h, fun hall => ?_⟩, fun hordinary => ?_, fun shown => ?_,
    fun rows h => ?_, ?_⟩
  · obtain ⟨rows, h, -⟩ := hrows hall
    exact ⟨rows, h⟩
  · have hall := @Reader.answers_of_ordinary c.reader _ hordinary
    rw [split_presets] at hall
    obtain ⟨rows, h, -⟩ := hrows hall
    exact ⟨rows, h⟩
  · rw [runPresets]
    cases presetRows c.settings c.now (since.getD c.now) with
    | error failure => simp [Report.broken, Report.done]
    | ok rows => simp [Report.ofTable_eq_done_iff]
  · obtain ⟨rows', h', htable⟩ := hrows (hanswers h)
    rwa [Except.ok.inj (h.symm.trans h')]
  · intro hne hsingle
    exact ⟨phrases_eq_map hne hsingle, fun preset _ => read_strip c.reader preset⟩

/-- Each of the usual presets has a row. -/
theorem runPresets_rows_standard :
    let c : Context :=
      ⟨.screen 80, .standard, ⟨⟨2025, 1, 1, by decide⟩, 12, 0, 0, 0⟩, false, ""⟩
    ∃ rows, presetRows c.settings c.now c.now = .ok rows ∧
      (∀ shown, runPresets c none = .done shown ↔
        c.console.table (presetTable rows) = .ok shown) ∧
      rows.length = 5 ∧ Tabulates c.settings c.now c.now
        (c.settings.presets.map (Text.strip ·.toList)) rows := by
  intro c
  have hletters : ("; ".intercalate c.settings.presets).toList.all (· ∉ Text.specialLetters) =
      true := by decide
  have hordinary : Text.Ordinary ("; ".intercalate c.settings.presets).toList :=
    Text.ordinary_of_length_le (by simpa using hletters) (by decide)
  obtain ⟨-, hmade, hshown, htable, hsingle⟩ := runPresets_rows c none
  obtain ⟨rows, hrows⟩ := hmade hordinary
  obtain ⟨hphrases, -⟩ := hsingle (by decide) (by decide)
  have htable := htable rows hrows
  rw [hphrases] at htable
  refine ⟨rows, hrows, fun shown => (hshown shown).trans ?_, htable.1, htable⟩
  constructor
  · rintro ⟨rows', hrows', h⟩
    rwa [Except.ok.inj (hrows.symm.trans hrows')]
  · exact fun h => ⟨rows, hrows, h⟩

/-- A preset that is not understood as the one phrase that it is meant to be has two rows, as if it
were two presets. -/
theorem runPresets_twoPhrases :
    let c : Context := ⟨.screen 80, { Settings.standard with presets := ["tomorrow; today"] },
      ⟨⟨2025, 1, 1, by decide⟩, 12, 0, 0, 0⟩, false, ""⟩
    let rows := [["1", "tomorrow", "Thursday at 12:00  (in 1 day)"],
      ["2", "today", "today at 12:00  (in zero minutes)"]]
    LeadsTo c.settings c.now c.now "tomorrow; today"
        "[red]cannot understand '; today' in 'tomorrow; today'[/red]" ∧
      presetRows c.settings c.now c.now = .ok rows ∧
      runPresets c none = .ofTable c.console (presetTable rows) := by
  intro c rows
  obtain ⟨hread, hmade⟩ : (fun _ => ()) <$> (c.settings.reader c.now).read "tomorrow; today" =
        .error (.expression (.unparsable "tomorrow; today" 8)) ∧
      (presetRows c.settings c.now c.now).toOption = some rows := by decide +kernel
  have hrows : presetRows c.settings c.now c.now = .ok rows := eq_ok_of_toOption hmade
  refine ⟨.unread (eq_error_of_map hread), hrows, ?_⟩
  rw [runPresets, Option.getD_none, hrows]

end CommandLine

end TimePhrase
