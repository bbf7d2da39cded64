import TimePhrase.Proofs.Reading.InTurn
import TimePhrase.Proofs.Reading.Readable

/-!
# Expressions side by side

Several expressions that are read together are read as if each were alone. An expression that
cannot be understood does not harm the others. They all fail if a recognizer fails on the way
through one of them, which happens in no ordinary text.
-/

namespace TimePhrase

/-- What is answered for a report on a single expression. -/
def Selection.answer (s : Selection) : Except Failure (List Term) :=
  s.outcome.mapError .expression

namespace Reader

variable {reader : Reader}

/-- The report on a text that is searched alone, under the given index. -/
def selectionOf (reader : Reader) (index : Nat) (text : List Char) : Selection :=
  ⟨index, String.ofList text, (reader.progressOf text).outcome text⟩

theorem mapIdx_findings (reader : Reader) (id : Nat) (registered : List Nat) (text : String)
    (pieces : List (List Char)) :
    ((Operation.start id registered text pieces).run reader .silent).parts.mapIdx
      Operation.findings = pieces.mapIdx reader.selectionOf := by
  have hsearched := Operation.searched_run reader id registered text pieces
  generalize (Operation.start id registered text pieces).run reader .silent = op at hsearched ⊢
  refine List.ext_getElem? fun i => ?_
  have hpart := congrArg (·[i]?) hsearched
  simp only [Operation.searched, List.getElem?_map] at hpart
  rw [List.getElem?_mapIdx, List.getElem?_mapIdx]
  cases hpiece : pieces[i]? with
  | none => simpa [hpiece] using hpart
  | some piece =>
    rw [hpiece, Option.map_some, Option.map_eq_some_iff] at hpart
    obtain ⟨part, hfound, hsame⟩ := hpart
    obtain ⟨rfl, hprogress⟩ := Prod.mk.inj hsame
    rw [hfound, Option.map_some, Option.map_some, Operation.findings, hprogress]
    rfl

/-- Several expressions are read if no search through one of them fails, and then each is reported
as it is alone. -/
theorem readAll_eq_ok_iff {text : String} {result : Selections} :
    reader.readAll text = .ok result ↔
      (∀ piece ∈ reader.locale.split text, reader.Answers piece) ∧
        result = ⟨text, (reader.locale.split text).mapIdx reader.selectionOf⟩ := by
  obtain ⟨hnone, -⟩ := Operation.failure_run reader 0 [] text (reader.locale.split text)
  simp only [failureOf_eq_none_iff] at hnone
  rw [readAll_eq, mapIdx_findings, ← hnone]
  cases ((Operation.start 0 [] text (reader.locale.split text)).run reader .silent).failure with
  | none => simp [eq_comm]
  | some failure => simp

/-- Several expressions fail with the failure of one of them. -/
theorem failureOf_of_readAll {text : String} {failure : Failure}
    (h : reader.readAll text = .error failure) :
    ∃ piece ∈ reader.locale.split text, reader.failureOf piece = some failure := by
  obtain ⟨-, hsome⟩ := Operation.failure_run reader 0 [] text (reader.locale.split text)
  rw [readAll_eq] at h
  cases hfailure : ((Operation.start 0 [] text (reader.locale.split text)).run reader
    .silent).failure with
  | none =>
    rw [hfailure] at h
    cases h
  | some other =>
    rw [hfailure] at h
    obtain rfl := Except.error.inj h
    exact hsome other hfailure

/-- A single expression is answered as its text is reported alone. -/
theorem read_eq_answer (reader : Reader) (text : String) :
    reader.read text = (reader.failureOf (Text.strip text.toList)).elim
      (reader.selectionOf 0 (Text.strip text.toList)).answer .error := by
  obtain ⟨op, part, steps, hop, hparts, -, -, -, hresult⟩ := exists_submit reader text
  have hrun : op = (Operation.start 0 [] text [Text.strip text.toList]).run reader .silent := by
    simpa [submit] using hop
  have hfindings := mapIdx_findings reader 0 [] text [Text.strip text.toList]
  obtain ⟨hnone, hsome⟩ := Operation.failure_run reader 0 [] text [Text.strip text.toList]
  rw [← hrun] at hfindings hnone hsome
  have hfailure : op.failure = reader.failureOf (Text.strip text.toList) := by
    cases h : op.failure with
    | none => exact (hnone.1 h _ (List.mem_singleton.2 rfl)).symm
    | some failure =>
      obtain ⟨piece, hpiece, hfails⟩ := hsome failure h
      rw [← hfails, List.mem_singleton.1 hpiece]
  have hfound : Operation.findings 0 part = reader.selectionOf 0 (Text.strip text.toList) := by
    simpa [hparts] using hfindings
  rw [read_eq hop hresult, ← hfailure, ← hfound]
  cases op.failure with
  | some failure => rfl
  | none =>
    rw [Option.elim_none, Selection.answer, Operation.findings]
    cases part.progress.outcome part.text <;> rfl

theorem read_part {text : String} {piece : List Char} (h : piece ∈ reader.locale.split text)
    (index : Nat) : reader.read (String.ofList piece) =
      (reader.failureOf piece).elim (reader.selectionOf index piece).answer .error := by
  rw [read_eq_answer, String.toList_ofList, (Locale.of_mem_split h).1]
  rfl

/-- There are readings or a fault. -/
theorem selectionOf_outcome (reader : Reader) (index : Nat) (text : List Char) :
    (reader.selectionOf index text).outcome ≠ .ok [] := by
  rw [selectionOf, Progress.outcome_eq]
  by_cases hreadings : (reader.progressOf text).readings = []
  · rw [if_pos hreadings]
    exact nofun
  · rw [if_neg hreadings]
    exact fun hnil => hreadings (Except.ok.inj hnil)

/-- What is read is what the search through the text has found, and it has found something. -/
theorem readings_of_read {text : String} {readings : List Term}
    (h : reader.read text = .ok readings) :
    reader.failureOf (Text.strip text.toList) = none ∧
      (reader.progressOf (Text.strip text.toList)).readings = readings ∧ readings ≠ [] := by
  rw [read_eq_answer] at h
  cases hfailure : reader.failureOf (Text.strip text.toList) with
  | some failure =>
    rw [hfailure] at h
    cases h
  | none =>
    rw [hfailure, Option.elim_none, Selection.answer, selectionOf, Progress.outcome_eq] at h
    by_cases hnil : (reader.progressOf (Text.strip text.toList)).readings = []
    · rw [if_pos hnil] at h
      cases h
    · rw [if_neg hnil] at h
      obtain rfl := Except.ok.inj h
      exact ⟨rfl, rfl, hnil⟩

/-- Among several expressions each is answered as it is alone. -/
theorem read_of_readAll {text : String} {result : Selections} {s : Selection}
    (h : reader.readAll text = .ok result) (hs : s ∈ result.parts) :
    reader.read s.text = s.answer := by
  obtain ⟨hanswers, rfl⟩ := readAll_eq_ok_iff.1 h
  obtain ⟨i, hi, rfl⟩ := List.mem_mapIdx.1 hs
  have hpiece := List.getElem_mem hi
  have hread := read_part hpiece i
  rw [failureOf_eq_none_iff.2 (hanswers _ hpiece)] at hread
  exact hread

theorem answers_of_ordinary {text : String} (h : Text.Ordinary text.toList) :
    ∀ piece ∈ reader.locale.split text, reader.Answers piece := fun _ hpiece =>
  answers_of_readable (readable_of_ordinary reader.locale (h.within (Locale.of_mem_split hpiece).2))

/-- Several expressions are read, each as if it were alone, if no recognizer fails on the way
through one of them. So it is in an ordinary text. Otherwise they fail with the failure of one of
them. -/
theorem readAll_parts (reader : Reader) (text : String) :
    ((∃ result, reader.readAll text = .ok result) ↔
      ∀ piece ∈ reader.locale.split text, reader.Answers piece) ∧
    (Text.Ordinary text.toList → ∃ result, reader.readAll text = .ok result) ∧
    (∀ result, reader.readAll text = .ok result → result.text = text ∧
      result.parts.map Selection.text = (reader.locale.split text).map String.ofList ∧
      result.parts.map Selection.index = List.range (reader.locale.split text).length ∧
      ∀ s ∈ result.parts, reader.read s.text = s.answer ∧ s.outcome ≠ .ok []) ∧
    ∀ failure, reader.readAll text = .error failure →
      ∃ piece ∈ reader.locale.split text, ¬ reader.Answers piece ∧
        reader.read (String.ofList piece) = .error failure := by
  have hiff : (∃ result, reader.readAll text = .ok result) ↔
      ∀ piece ∈ reader.locale.split text, reader.Answers piece := by
    simp [readAll_eq_ok_iff]
  refine ⟨hiff, fun hordinary => hiff.2 (answers_of_ordinary hordinary), ?_, ?_⟩
  · intro result hread
    have hanswer {s : Selection} (hs : s ∈ result.parts) := read_of_readAll hread hs
    obtain ⟨-, rfl⟩ := readAll_eq_ok_iff.1 hread
    refine ⟨rfl, ?_, ?_, fun s hs => ⟨hanswer hs, ?_⟩⟩
    · exact List.ext_getElem (by simp) (by simp [selectionOf])
    · exact List.ext_getElem (by simp) (by simp [selectionOf])
    · obtain ⟨i, hi, rfl⟩ := List.mem_mapIdx.1 hs
      exact selectionOf_outcome reader i _
  · intro failure hread
    obtain ⟨piece, hpiece, hfails⟩ := failureOf_of_readAll hread
    refine ⟨piece, hpiece, ?_, ?_⟩
    · intro hanswers
      rw [failureOf_eq_none_iff.2 hanswers] at hfails
      cases hfails
    · rw [read_part hpiece 0, hfails]
      rfl

/-- "tomorrow" is read, but not beside "on ſunday", where a recognizer fails. -/
theorem readAll_unknownName :
    let reader : Reader := ⟨.english, ⟨⟨2024, 1, 3, by decide⟩, 9, 30, 0, 0⟩, .midnight⟩
    (∃ readings, reader.read "tomorrow" = .ok readings) ∧
      ∃ failure, reader.readAll "tomorrow; on ſunday" = .error failure := by
  intro reader
  have hboth : (reader.read "tomorrow").toOption.isSome = true ∧
      (reader.readAll "tomorrow; on ſunday").toOption.isNone = true := by decide +kernel
  obtain ⟨hreads, hfails⟩ := hboth
  constructor
  · obtain ⟨readings, hreadings⟩ := Option.isSome_iff_exists.1 hreads
    exact ⟨readings, eq_ok_of_toOption hreadings⟩
  · cases hread : reader.readAll "tomorrow; on ſunday" with
    | ok result =>
      rw [hread] at hfails
      cases hfails
    | error failure => exact ⟨failure, rfl⟩

/-- All of this holds of "tomorrow; never; 5", where one expression cannot be understood, and of
"tomorrow; on ſunday", where a recognizer fails. -/
theorem readAll_parts_tomorrow :
    let reader : Reader := ⟨.english, ⟨⟨2024, 1, 3, by decide⟩, 9, 30, 0, 0⟩, .midnight⟩
    let text := "tomorrow; never; 5"
    (∃ result, reader.readAll text = .ok result ∧
      result.parts.map Selection.text = (reader.locale.split text).map String.ofList ∧
      ∀ s ∈ result.parts, reader.read s.text = s.answer ∧ s.outcome ≠ .ok []) ∧
    ∃ failure, reader.readAll "tomorrow; on ſunday" = .error failure ∧
      ∃ piece ∈ reader.locale.split "tomorrow; on ſunday",
        reader.read (String.ofList piece) = .error failure := by
  intro reader text
  have hletters : text.toList.all (· ∉ Text.specialLetters) = true := by decide
  have hordinary : Text.Ordinary text.toList :=
    Text.ordinary_of_length_le (by simpa using hletters) (by decide)
  constructor
  · obtain ⟨-, hexists, hresult, -⟩ := readAll_parts reader text
    obtain ⟨result, hread⟩ := hexists hordinary
    obtain ⟨-, htexts, -, hparts⟩ := hresult result hread
    exact ⟨result, hread, htexts, hparts⟩
  · obtain ⟨-, -, -, hfailure⟩ := readAll_parts reader "tomorrow; on ſunday"
    obtain ⟨-, failure, hfails⟩ := readAll_unknownName
    obtain ⟨piece, hpiece, -, hread⟩ := hfailure failure hfails
    exact ⟨failure, hfails, piece, hpiece, hread⟩

/-- A letter that counts as an s without having it as its small form makes for a weekday of an
unknown name, with which the expression beside it is lost. -/
theorem not_exists_readAll_tomorrow :
    let reader : Reader := ⟨.english, ⟨⟨2024, 1, 3, by decide⟩, 9, 30, 0, 0⟩, .midnight⟩
    (∃ readings, reader.read "tomorrow" = .ok readings) ∧
      ¬ ∃ result, reader.readAll "tomorrow; on ſunday" = .ok result := by
  intro reader
  obtain ⟨hreads, failure, hfails⟩ := readAll_unknownName
  refine ⟨hreads, ?_⟩
  rintro ⟨result, hresult⟩
  cases hresult.symm.trans hfails

/-- Two inputs joined by a semicolon are read as the first and then the second, unless one of them
is all blank or a recognizer fails. -/
theorem readAll_append (reader : Reader) {first second : String}
    (hfirst : ∃ piece ∈ first.toList.splitOn ';', Text.strip piece ≠ [])
    (hsecond : ∃ piece ∈ second.toList.splitOn ';', Text.strip piece ≠ [])
    (hanswers : ∀ piece ∈ reader.locale.split first, reader.Answers piece)
    (hanswers' : ∀ piece ∈ reader.locale.split second, reader.Answers piece) :
    ∃ one two both, reader.readAll first = .ok one ∧ reader.readAll second = .ok two ∧
      reader.readAll (first ++ ";" ++ second) = .ok both ∧
      both.parts = one.parts ++
        two.parts.map (fun s => { s with index := s.index + one.parts.length }) ∧
      ∀ s ∈ both.parts, reader.read s.text = s.answer := by
  have hsplit := @Locale.split_append reader.locale first second hfirst hsecond
  have hall : ∀ piece ∈ reader.locale.split (first ++ ";" ++ second), reader.Answers piece := by
    rw [hsplit]
    intro piece hpiece
    exact (List.mem_append.1 hpiece).elim (hanswers piece) (hanswers' piece)
  have hread := readAll_eq_ok_iff.2 ⟨hall, rfl⟩
  refine ⟨_, _, _, readAll_eq_ok_iff.2 ⟨hanswers, rfl⟩, readAll_eq_ok_iff.2 ⟨hanswers', rfl⟩, hread,
    ?_, fun s hs => read_of_readAll hread hs⟩
  rw [hsplit, List.mapIdx_append, List.length_mapIdx]
  refine congrArg _ (List.ext_getElem (by simp) fun i hi hi' => ?_)
  rw [List.getElem_map, List.getElem_mapIdx, List.getElem_mapIdx]
  rfl

/-- " ; 5" and "ſ;; tomorrow" are read together as they are one after the other. -/
theorem readAll_append_blankPieces :
    let reader : Reader := ⟨.english, ⟨⟨2024, 1, 3, by decide⟩, 9, 30, 0, 0⟩, .midnight⟩
    let first := " ; 5"
    let second := "ſ;; tomorrow"
    (∃ piece ∈ first.toList.splitOn ';', Text.strip piece ≠ []) ∧
      (∃ piece ∈ second.toList.splitOn ';', Text.strip piece ≠ []) ∧
      (∀ piece ∈ reader.locale.split first, reader.Answers piece) ∧
      (∀ piece ∈ reader.locale.split second, reader.Answers piece) ∧
      ∃ one two both, reader.readAll first = .ok one ∧ reader.readAll second = .ok two ∧
        reader.readAll (first ++ ";" ++ second) = .ok both ∧
        both.parts = one.parts ++
          two.parts.map (fun s => { s with index := s.index + one.parts.length }) ∧
        ∀ s ∈ both.parts, reader.read s.text = s.answer := by
  intro reader first second
  have hfirst : ∃ piece ∈ first.toList.splitOn ';', Text.strip piece ≠ [] := by decide +kernel
  have hsecond : ∃ piece ∈ second.toList.splitOn ';', Text.strip piece ≠ [] := by decide +kernel
  have hboth : (∀ piece ∈ reader.locale.split first, reader.Answers piece) ∧
      ∀ piece ∈ reader.locale.split second, reader.Answers piece := by decide +kernel
  obtain ⟨hanswers, hanswers'⟩ := hboth
  exact ⟨hfirst, hsecond, hanswers, hanswers',
    readAll_append reader hfirst hsecond hanswers hanswers'⟩

end Reader

end TimePhrase
