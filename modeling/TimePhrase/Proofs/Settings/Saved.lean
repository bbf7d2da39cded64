import TimePhrase.Proofs.Settings.Form
import TimePhrase.Settings.Store

/-!
# Reading the file of settings again

Whenever the file of settings is read, it is brought into its usual form. Reading it once more
gives the same settings and leaves the file alone, unless the form has just been filled with a
string that does not say between quotes what it is.
-/

namespace TimePhrase.Settings

deriving instance DecidableEq for WrittenTime

deriving instance DecidableEq for Settings

variable {s : Settings}

theorem plain_standard : standard.Plain where
  title := by decide +kernel
  defaultTime := by decide +kernel
  snooze := by decide +kernel
  presets := by decide +kernel

theorem commonLineEnds_of_not_mem {cs : List Char} (h : '\r' ∉ cs) : commonLineEnds cs = cs := by
  induction cs with
  | nil => rfl
  | cons c cs ih =>
    obtain ⟨hc, hcs⟩ : '\r' ≠ c ∧ '\r' ∉ cs := by simpa using h
    rw [commonLineEnds, if_neg hc.symm, ih hcs]
    exact fun _ heq => absurd heq.symm hc

/-- The form has no carriage returns. -/
theorem commonLineEnds_render (h : s.Plain) :
    commonLineEnds s.render.toList = s.render.toList := by
  refine commonLineEnds_of_not_mem ?_
  rw [toList_render]
  exact (s.reads_lines h).noReturn

namespace Store

variable {store after : Store} {notes : List Note}

/-- A file in its usual form, up to the ends of lines, stays as it is. -/
theorem load_of_usual {text : String} {current : Option Settings} {told : List Note}
    (hread : orStandard text = .ok (s, told))
    (husual : s.render.toList = commonLineEnds text.toList) :
    load ⟨some text, current⟩ = .ok (s, told, ⟨some text, some s⟩) := by
  simp [load, hread, husual, bind, Except.bind, pure, Except.pure]

/-- Any other file is filled anew. -/
theorem load_of_unusual {text : String} {current : Option Settings} {told : List Note}
    (hread : orStandard text = .ok (s, told))
    (hunusual : s.render.toList ≠ commonLineEnds text.toList) :
    load ⟨some text, current⟩ =
      .ok (s, told ++ [.updated], ⟨some s.render, some s⟩) := by
  simp [load, hread, hunusual, bind, Except.bind, pure, Except.pure]

theorem orStandard_of_load {text : String} {current : Option Settings}
    (h : load ⟨some text, current⟩ = .ok (s, notes, after)) :
    ∃ told, orStandard text = .ok (s, told) := by
  cases hread : orStandard text with
  | error failure => simp [load, hread, bind, Except.bind] at h
  | ok found =>
    obtain ⟨c, told⟩ := found
    by_cases husual : c.render.toList = commonLineEnds text.toList
    · rw [load_of_usual hread husual] at h
      cases h
      exact ⟨_, rfl⟩
    · rw [load_of_unusual hread husual] at h
      cases h
      exact ⟨told, rfl⟩

theorem updated_not_mem {text : String} {told : List Note} (h : orStandard text = .ok (s, told)) :
    .updated ∉ told := by
  unfold orStandard at h
  split at h <;> cases h <;> decide

/-- The form is read again as it was filled if its strings say what they are. -/
theorem load_render (h : s.Plain) :
    load ⟨some s.render, some s⟩ = .ok (s, [], ⟨some s.render, some s⟩) :=
  load_of_usual (by simp [orStandard, ofText_render_iff.2 h]) (commonLineEnds_render h).symm

/-- If the form is read as it was filled, then its strings say what they are: the standard
settings, which would stand in for a faulty form, are such. -/
theorem plain_of_load_render (h : load ⟨some s.render, some s⟩ = .ok (s, notes, after)) :
    s.Plain := by
  obtain ⟨told, hread⟩ := orStandard_of_load h
  unfold orStandard at hread
  split at hread
  · next found hfound =>
    cases hread
    exact ofText_render_iff.1 hfound
  · cases hread
  · cases hread
    exact plain_standard

/-- Reading the file again gives the same settings and leaves the file as it is, exactly if their
strings say what they are or the file was not filled anew. -/
theorem load_again_iff (h : store.load = .ok (s, notes, after)) :
    (∃ again, after.load = .ok (s, again, after)) ↔ s.Plain ∨ .updated ∉ notes := by
  obtain ⟨file, current⟩ := store
  cases file with
  | none =>
    cases h
    exact iff_of_true ⟨[], load_render plain_standard⟩ (.inl plain_standard)
  | some text =>
    obtain ⟨told, hread⟩ := orStandard_of_load h
    by_cases husual : s.render.toList = commonLineEnds text.toList
    · rw [load_of_usual hread husual] at h
      cases h
      exact iff_of_true ⟨_, load_of_usual hread husual⟩ (.inr (updated_not_mem hread))
    · rw [load_of_unusual hread husual] at h
      cases h
      constructor
      · rintro ⟨again, hagain⟩
        exact .inl (plain_of_load_render hagain)
      · rintro (hplain | hnot)
        · exact ⟨[], load_render hplain⟩
        · simp at hnot

/-- Settings come back from the form exactly if their strings say between quotes what they are.
Reading the file a second time gives the settings of the first time and leaves the file as the
first time left it, exactly if this holds of them or the file was not filled anew. -/
theorem read_again (s : Settings) :
    (ofText s.render = .ok s ↔ s.Plain) ∧
      ∀ (store after : Store) (notes : List Note), store.load = .ok (s, notes, after) →
        ((∃ again, after.load = .ok (s, again, after)) ↔ s.Plain ∨ .updated ∉ notes) :=
  ⟨ofText_render_iff, fun _ _ _ => load_again_iff⟩

/-- Settings with times on a clock of twelve hours, and otherwise the standard ones. -/
def twelve : Settings := { standard with twelveHours := true }

/-- A file with one setting is filled with the others and then read again. -/
theorem read_again_twelve :
    load ⟨some "[ui]\nampm = true\n", none⟩ =
        .ok (twelve, [.updated], ⟨some twelve.render, some twelve⟩) ∧
      ∃ again, load ⟨some twelve.render, some twelve⟩ =
        .ok (twelve, again, ⟨some twelve.render, some twelve⟩) := by
  have hload : load ⟨some "[ui]\nampm = true\n", none⟩ =
      .ok (twelve, [.updated], ⟨some twelve.render, some twelve⟩) := by
    have hread : orStandard "[ui]\nampm = true\n" = .ok (twelve, []) := by decide +kernel
    refine load_of_unusual hread ?_
    rw [toList_render]
    decide +kernel
  have hplain : twelve.Plain := ⟨plain_standard.title, plain_standard.defaultTime,
    plain_standard.snooze, plain_standard.presets⟩
  exact ⟨hload, ((read_again twelve).2 _ _ _ hload).2 (.inl hplain)⟩

/-- Settings with quotes in their title. -/
def quoted : Settings := { standard with title := "a \"b\" c" }

/-- Quotes in the title are read and written as they are, and are not read back. -/
theorem not_read_again_quoted :
    ofText quoted.render ≠ .ok quoted ∧
      load ⟨some "title = 'a \"b\" c'\n", none⟩ =
        .ok (quoted, [.updated], ⟨some quoted.render, some quoted⟩) ∧
      ∀ again after, load ⟨some quoted.render, some quoted⟩ ≠ .ok (quoted, again, after) := by
  have hquotes : ¬ quoted.Plain := fun h => absurd h.title (by decide +kernel)
  refine ⟨fun h => hquotes (plain_of_ofText h), ?_, fun _ _ h => hquotes (plain_of_load_render h)⟩
  have hread : orStandard "title = 'a \"b\" c'\n" = .ok (quoted, []) := by decide +kernel
  refine load_of_unusual hread ?_
  rw [toList_render]
  decide +kernel

end Store

end TimePhrase.Settings
