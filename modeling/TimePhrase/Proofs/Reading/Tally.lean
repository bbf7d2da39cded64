import TimePhrase.Proofs.Reading.Steps
import TimePhrase.Proofs.Text.Pieces

/-!
# Counting branches

Each part of an operation counts its outstanding branches, and the operation counts the parts
that have some. So a part is reported when nothing is left to do for it, and the operation comes
to its result when that is so for every part.
-/

namespace TimePhrase

namespace Operation

variable {reader : Reader} {listener : Listener} {op op' : Operation}

/-- The number of outstanding branches of a part. -/
def waiting (op : Operation) (i : Nat) : Nat := op.outstanding.countP (·.1 = i)

/-- What has been found out about a part. -/
def findings (i : Nat) (part : PartState) : Selection :=
  ⟨i, String.ofList part.text, part.progress.outcome part.text⟩

/-- What has been found out about a part says all its readings. -/
theorem readings_findings (i : Nat) (part : PartState) :
    (findings i part).readings = part.progress.readings := by
  rw [findings, Selection.readings, Progress.outcome_eq]
  split
  · rename_i hnone
    exact hnone.symm
  · rfl

/-- What is reported about a part, when nothing is left to do for it. -/
def report? (i : Nat) (part : PartState) : Option Selection :=
  if part.pending.value = 0 then some (findings i part) else none

/-- The counters agree with the outstanding branches. A branch of the part `taken` may have been
taken from them that is not done yet. -/
structure Tally (taken : Option Nat) (op : Operation) : Prop where
  pending : ∀ i part, op.parts[i]? = some part →
    part.pending.value = ((op.waiting i + if taken = some i then 1 else 0 : Nat) : Int)
  selection : ∀ i part, op.parts[i]? = some part → part.selection = report? i part
  openParts : op.openParts.value = op.parts.countP (·.pending.value ≠ 0)
  result : op.parts ≠ [] → op.openParts.value = 0 →
    op.result = some (op.failure.elim (.ok op.selections) .error)

theorem countP_modify {α : Type} {p : α → Bool} {items : List α} {i : Nat} {item : α} (f : α → α)
    (h : items[i]? = some item) :
    (items.modify i f).countP p + (if p item then 1 else 0) =
      items.countP p + if p (f item) then 1 else 0 := by
  induction items generalizing i with
  | nil => exact absurd h nofun
  | cons other items ih =>
    cases i with
    | zero =>
      obtain rfl := Option.some.inj h
      simp only [List.modify_zero_cons, List.countP_cons]
      omega
    | succ i =>
      have := ih h
      simp only [List.modify_succ_cons, List.countP_cons]
      omega

theorem tally_start (id : Nat) (registered : List Nat) (text : String)
    (pieces : List (List Char)) : (start id registered text pieces).Tally none := by
  have hparts {i : Nat} {part : PartState}
      (h : (start id registered text pieces).parts[i]? = some part) :
      ∃ piece, pieces[i]? = some piece ∧ part = ⟨piece, .none, ⟨1⟩, none⟩ := by
    simp only [start, List.getElem?_map, Option.map_eq_some_iff] at h
    obtain ⟨piece, hpiece, rfl⟩ := h
    exact ⟨piece, hpiece, rfl⟩
  refine ⟨fun i part h => ?_, fun i part h => ?_, ?_, fun hne hzero => ?_⟩
  · obtain ⟨piece, hpiece, rfl⟩ := hparts h
    have hfilter := congrArg List.length (filter_start 0 hpiece)
    rw [← List.countP_eq_length_filter] at hfilter
    have hwaiting : (start id registered text pieces).waiting i = 1 := by
      simpa [waiting, start] using hfilter
    rw [hwaiting]
    rfl
  · obtain ⟨piece, hpiece, rfl⟩ := hparts h
    rfl
  · simp [start, List.countP_map, Function.comp_def]
  · simp_all [start]

theorem waiting_without {place : Nat} (hplace : place < op.outstanding.length) (i : Nat) :
    op.waiting i = (op.without place).waiting i +
      if some op.outstanding[place].1 = some i then 1 else 0 := by
  have hperm := (List.getElem_cons_eraseIdx_perm hplace).countP_eq (·.1 = i)
  rw [waiting, ← hperm, List.countP_cons]
  simp [waiting, without]

theorem Tally.without {place : Nat} (hplace : place < op.outstanding.length)
    (h : op.Tally none) : (op.without place).Tally (some op.outstanding[place].1) := by
  refine ⟨fun i part hpart => ?_, h.selection, h.openParts, h.result⟩
  rw [h.pending i part hpart, waiting_without hplace i]
  simp

/-- A part whose branch has been taken is still open. -/
theorem Tally.openParts_pos {i : Nat} {part : PartState} (h : op.Tally (some i))
    (hpart : op.parts[i]? = some part) : 0 < op.openParts.value := by
  rw [h.openParts]
  have hpending := h.pending i part hpart
  refine Int.natCast_pos.2 (List.countP_pos_iff.2 ⟨part, List.mem_of_getElem? hpart, ?_⟩)
  simp only [if_true] at hpending
  exact decide_eq_true (by omega)

theorem getElem?_modify_cases {α : Type} {items : List α} {i j : Nat} {item other : α} {f : α → α}
    (h : items[i]? = some item) (hj : (items.modify i f)[j]? = some other) :
    (j = i ∧ other = f item) ∨ (j ≠ i ∧ items[j]? = some other) := by
  rw [List.getElem?_modify, Option.map_eq_map, Option.map_eq_some_iff] at hj
  obtain ⟨before, hbefore, rfl⟩ := hj
  by_cases hij : i = j
  · subst hij
    obtain rfl := Option.some.inj (h.symm.trans hbefore)
    exact .inl ⟨rfl, by simp⟩
  · exact .inr ⟨Ne.symm hij, by simpa [hij] using hbefore⟩

/-- The counters go on agreeing when a part changes that stays open. -/
theorem Tally.modify {i : Nat} {part : PartState} {f : PartState → PartState}
    {taken : Option Nat} (h : op.Tally (some i)) (hpart : op.parts[i]? = some part)
    (hparts : op'.parts = op.parts.modify i f) (hopen : op'.openParts = op.openParts)
    (hselection : (f part).selection = part.selection) (htaken : ∀ j ≠ i, taken ≠ some j)
    (hpending : (f part).pending.value =
      ((op'.waiting i + if taken = some i then 1 else 0 : Nat) : Int))
    (hleft : (f part).pending.value ≠ 0) (hothers : ∀ j ≠ i, op'.waiting j = op.waiting j) :
    op'.Tally taken := by
  have hbefore := h.pending i part hpart
  simp only [if_true] at hbefore
  refine ⟨fun j other hj => ?_, fun j other hj => ?_, ?_, fun _ hzero => ?_⟩
  · rw [hparts] at hj
    rcases getElem?_modify_cases hpart hj with ⟨rfl, rfl⟩ | ⟨hij, hj⟩
    · exact hpending
    · rw [h.pending j other hj, hothers j hij, if_neg (htaken j hij),
        if_neg (fun hsame => hij (Option.some.inj hsame).symm)]
  · rw [hparts] at hj
    rcases getElem?_modify_cases hpart hj with ⟨rfl, rfl⟩ | ⟨hij, hj⟩
    · have hnone := h.selection j part hpart
      rw [report?, if_neg (by omega)] at hnone
      rw [hselection, hnone, report?, if_neg hleft]
    · exact h.selection j other hj
  · have hcount := countP_modify (p := (·.pending.value ≠ 0)) f hpart
    have hright : part.pending.value ≠ 0 := by omega
    simp only [hleft, hright, ne_eq, not_false_eq_true, decide_true, if_true] at hcount
    rw [hopen, hparts, h.openParts]
    exact congrArg _ (by simpa using hcount.symm)
  · have := h.openParts_pos hpart
    rw [hopen] at hzero
    omega

section Fields

@[simp] theorem parts_heed (failure : Option Failure) : (op.heed failure).parts = op.parts := by
  cases failure <;> rfl

@[simp] theorem openParts_heed (failure : Option Failure) :
    (op.heed failure).openParts = op.openParts := by
  cases failure <;> rfl

theorem text_heed (failure : Option Failure) : (op.heed failure).text = op.text := by
  cases failure <;> rfl

@[simp] theorem parts_finishAll : (op.finishAll listener).parts = op.parts := by
  simp only [finishAll]
  exact parts_heed _

@[simp] theorem openParts_finishAll : (op.finishAll listener).openParts = op.openParts := by
  simp only [finishAll]
  exact openParts_heed _

@[simp] theorem text_finishAll : (op.finishAll listener).text = op.text := by
  simp only [finishAll]
  exact text_heed _

theorem result_finishAll : (op.finishAll listener).result =
    some ((op.finishAll listener).failure.elim (.ok (op.finishAll listener).selections)
      .error) := by
  have hsame : (op.finishAll listener).selections = op.selections := by
    rw [selections, parts_finishAll, text_finishAll]
    rfl
  rw [hsame]
  rfl

theorem parts_absorb (i : Nat) (e : Exploration) : (op.absorb i e).parts =
    op.parts.modify i fun p => { p with progress := p.progress.add e } := by
  unfold absorb
  dsimp only
  split <;> rfl

theorem openParts_absorb (i : Nat) (e : Exploration) :
    (op.absorb i e).openParts = op.openParts := by
  unfold absorb
  dsimp only
  split <;> rfl

theorem parts_finishPart (i : Nat) (part : PartState) : (op.finishPart listener i part).parts =
    op.parts.modify i fun p => { p with selection := some (findings i part) } := by
  unfold finishPart
  dsimp only
  split
  · exact parts_heed _
  · split
    · exact parts_finishAll.trans (parts_heed _)
    · exact parts_heed _

@[simp] theorem text_absorb (i : Nat) (e : Exploration) : (op.absorb i e).text = op.text := by
  unfold absorb
  dsimp only
  split <;> rfl

@[simp] theorem text_finishPart (i : Nat) (part : PartState) :
    (op.finishPart listener i part).text = op.text := by
  unfold finishPart
  dsimp only
  split
  · exact text_heed _
  · split
    · exact text_finishAll.trans (text_heed _)
    · exact text_heed _

@[simp] theorem text_completeBranch (i : Nat) :
    (op.completeBranch listener i).text = op.text := by
  unfold completeBranch
  split
  · rfl
  · split
    · rfl
    · dsimp only
      split
      · exact text_finishPart _ _
      · rfl

/-- No step changes the text of the operation. -/
theorem text_step (place : Nat) : (op.step reader listener place).text = op.text := by
  unfold step
  split
  · rfl
  · unfold visit
    split
    · rfl
    · exact (text_completeBranch _).trans (text_absorb _ _)

/-- With an open part left, a part that is done is taken off the count, and with the last one the
operation comes to its result. -/
theorem openParts_finishPart {i : Nat} {part : PartState} (h : 0 < op.openParts.value) :
    (op.finishPart listener i part).openParts.value = op.openParts.value - 1 ∧
      ((op.finishPart listener i part).openParts.value = 0 →
        (op.finishPart listener i part).result =
          some ((op.finishPart listener i part).failure.elim
            (.ok (op.finishPart listener i part).selections) .error)) := by
  have hdone : op.openParts.done = .ok ⟨op.openParts.value - 1⟩ := by
    rw [Counter.done, if_neg (by omega)]
  unfold finishPart
  simp only [openParts_heed]
  have hsame : ((op.modifyPart i fun p => { p with selection := some (findings i part) }).report
      (.partDone op.id (findings i part))).openParts.done = .ok ⟨op.openParts.value - 1⟩ := hdone
  split
  · rename_i hfailed
    exact absurd (hfailed.symm.trans hsame) nofun
  · rename_i left hleft
    obtain rfl := Except.ok.inj (hleft.symm.trans hsame)
    split
    · exact ⟨by simp, fun _ => result_finishAll⟩
    · rename_i hne
      exact ⟨rfl, fun hzero => absurd hzero hne⟩

end Fields

theorem Tally.absorb {i : Nat} {part : PartState} (h : op.Tally (some i))
    (hpart : op.parts[i]? = some part) (e : Exploration) : (op.absorb i e).Tally (some i) := by
  have hwaiting (j : Nat) : (op.absorb i e).waiting j = op.waiting j := by
    simp [waiting]
  have hpending := h.pending i part hpart
  refine h.modify hpart (parts_absorb i e) (openParts_absorb i e) rfl
    (fun j hj hsame => hj (Option.some.inj hsame).symm) ?_ ?_ fun j _ => hwaiting j
  · rw [hwaiting]
    exact hpending
  · simp only [if_true] at hpending
    change part.pending.value ≠ 0
    omega

theorem Tally.enter {i : Nat} {part : PartState} (h : op.Tally (some i))
    (hpart : op.parts[i]? = some part) (children : List Branch) :
    (op.enter i children).Tally (some i) := by
  have hwaiting (j : Nat) : (op.enter i children).waiting j =
      op.waiting j + if i = j then children.length else 0 := by
    simp only [waiting, outstanding_enter, List.countP_append, List.countP_map]
    congr 1
    split <;> simp_all [Function.comp_def]
  have hpending := h.pending i part hpart
  simp only [if_true] at hpending
  refine h.modify hpart rfl rfl rfl (fun j hj hsame => hj (Option.some.inj hsame).symm) ?_ ?_
    fun j hj => ?_
  · rw [hwaiting, if_pos rfl, if_pos rfl, Counter.add]
    push_cast
    omega
  · change part.pending.value + (children.length : Int) ≠ 0
    omega
  · rw [hwaiting, if_neg (Ne.symm hj), Nat.add_zero]

/-- The last branch of a part closes it, and the last part settles the result. -/
theorem Tally.finishPart {i : Nat} {part : PartState} (h : op.Tally (some i))
    (hpart : op.parts[i]? = some part) (hlast : op.waiting i = 0) :
    ((op.modifyPart i fun p => { p with pending := ⟨0⟩ }).finishPart listener i part).Tally
      none := by
  have hpending := h.pending i part hpart
  simp only [if_true, hlast] at hpending
  have hpos := h.openParts_pos hpart
  generalize hfinished : (op.modifyPart i fun p => { p with pending := ⟨0⟩ }).finishPart listener i
    part = finished
  have hparts : finished.parts = op.parts.modify i fun p => { p with
      pending := ⟨0⟩, selection := some (findings i part) } := by
    rw [← hfinished, parts_finishPart, modifyPart, List.modify_modify_eq]
    rfl
  have hwaiting (j : Nat) : finished.waiting j = op.waiting j := by
    simp [← hfinished, waiting]
  obtain ⟨hopen, hresult⟩ := @openParts_finishPart listener
    (op.modifyPart i fun p => { p with pending := ⟨0⟩ }) i part hpos
  rw [hfinished] at hopen hresult
  refine ⟨fun j other hj => ?_, fun j other hj => ?_, ?_, fun _ => hresult⟩
  · rw [hparts] at hj
    rw [hwaiting]
    rcases getElem?_modify_cases hpart hj with ⟨rfl, rfl⟩ | ⟨hij, hj⟩
    · simp [hlast]
    · rw [h.pending j other hj, if_neg (fun hsame => hij (Option.some.inj hsame).symm)]
      simp
  · rw [hparts] at hj
    rcases getElem?_modify_cases hpart hj with ⟨rfl, rfl⟩ | ⟨hij, hj⟩
    · rfl
    · exact h.selection j other hj
  · have hcount := countP_modify (p := (·.pending.value ≠ 0)) (fun p : PartState => { p with
      pending := ⟨0⟩, selection := some (findings i part) }) hpart
    have hleft : part.pending.value ≠ 0 := by omega
    simp only [hleft, ne_eq, not_false_eq_true, decide_true, if_true, not_true, decide_false,
      Bool.false_eq_true, if_false, Nat.add_zero] at hcount
    have hbefore := h.openParts
    rw [hopen, hparts]
    simp only [modifyPart, ne_eq] at hbefore ⊢
    omega

theorem Tally.completeBranch {i : Nat} {part : PartState} (h : op.Tally (some i))
    (hpart : op.parts[i]? = some part) : (op.completeBranch listener i).Tally none := by
  have hpending := h.pending i part hpart
  simp only [if_true] at hpending
  have hdone : part.pending.done = .ok ⟨part.pending.value - 1⟩ := by
    rw [Counter.done, if_neg (by omega)]
  simp only [Operation.completeBranch, hpart, hdone]
  split
  · rename_i hzero
    rw [hzero]
    exact h.finishPart hpart (by omega)
  · rename_i hleft
    refine h.modify hpart rfl rfl rfl (fun _ _ => nofun) ?_ hleft fun _ _ => rfl
    simp only [reduceCtorEq, if_false, Nat.add_zero]
    change part.pending.value - 1 = (op.waiting i : Int)
    omega

theorem Tally.visit {i : Nat} (branch : Branch) (h : op.Tally (some i)) :
    (op.visit reader listener i branch).Tally none := by
  unfold Operation.visit
  split
  · rename_i hnone
    refine ⟨fun j part hj => ?_, h.selection, h.openParts, h.result⟩
    have hij : i ≠ j := fun hsame => by simp [hsame, hj] at hnone
    rw [h.pending j part hj, if_neg (fun hsame => hij (Option.some.inj hsame))]
    simp
  · rename_i part hpart
    generalize branch.explore reader part.text = e
    have habsorbed : (op.absorb i e).parts[i]? =
        some { part with progress := part.progress.add e } := by
      rw [parts_absorb, List.getElem?_modify_eq, hpart]
      rfl
    have hentered : ((op.absorb i e).enter i e.children).parts[i]? = some { part with
        progress := part.progress.add e, pending := part.pending.add e.children.length } := by
      simp [Operation.enter, modifyPart, habsorbed]
    exact ((h.absorb hpart e).enter habsorbed e.children).completeBranch hentered

theorem Tally.step {place : Nat} (hplace : place < op.outstanding.length)
    (h : op.Tally none) : (op.step reader listener place).Tally none := by
  rw [step_eq_visit hplace]
  exact (h.without hplace).visit _

theorem Steps.tally {steps : Nat} {id : Nat} {registered : List Nat} {text : String}
    {pieces : List (List Char)}
    (h : (start id registered text pieces).Steps reader listener steps op) : op.Tally none :=
  h.induct (fun _ _ hplace => Tally.step hplace) (tally_start id registered text pieces)

section Done

variable {steps id : Nat} {registered : List Nat} {text : String} {pieces : List (List Char)}

/-- When nothing is outstanding, every part is reported with what has been found out about it. -/
theorem Steps.selection_eq {i : Nat} {part : PartState}
    (h : (start id registered text pieces).Steps reader listener steps op)
    (hdone : op.outstanding = []) (hpart : op.parts[i]? = some part) :
    part.pending.value = 0 ∧ part.selection = some (findings i part) := by
  have hpending := h.tally.pending i part hpart
  have hzero : part.pending.value = 0 := by simpa [waiting, hdone] using hpending
  exact ⟨hzero, by rw [h.tally.selection i part hpart, report?, if_pos hzero]⟩

theorem Steps.text_eq (h : (start id registered text pieces).Steps reader listener steps op) :
    op.text = text :=
  h.induct (P := fun op => op.text = text) (fun _ place _ htext => (text_step place).trans htext) rfl

/-- When nothing is outstanding, what has been found out about every part is reported. -/
theorem Steps.selections_eq (h : (start id registered text pieces).Steps reader listener steps op)
    (hdone : op.outstanding = []) : op.selections = ⟨text, op.parts.mapIdx findings⟩ := by
  have hall : op.parts.map PartState.selection = (op.parts.mapIdx findings).map some := by
    refine List.ext_getElem? fun i => ?_
    simp only [List.getElem?_map, List.getElem?_mapIdx]
    cases hi : op.parts[i]? with
    | none => rfl
    | some part => exact congrArg some (h.selection_eq hdone hi).2
  have hsome := congrArg (List.filterMap fun selection => selection) hall
  rw [List.filterMap_map, List.filterMap_map] at hsome
  rw [selections, h.text_eq]
  exact congrArg (Selections.mk text) (hsome.trans List.filterMap_some)

/-- When nothing is outstanding, no part is left open. -/
theorem Steps.openParts_eq_zero
    (h : (start id registered text pieces).Steps reader listener steps op)
    (hdone : op.outstanding = []) : op.openParts.value = 0 := by
  rw [h.tally.openParts, Int.natCast_eq_zero, List.countP_eq_zero]
  intro part hpart
  obtain ⟨i, hi⟩ := List.mem_iff_getElem?.1 hpart
  simp [(h.selection_eq hdone hi).1]

/-- When nothing is outstanding, the operation has come to its result, with what has been found out
about every part. -/
theorem Steps.resultOf_eq (h : (start id registered text pieces).Steps reader listener steps op)
    (hdone : op.outstanding = []) (hpieces : pieces ≠ []) :
    Reader.resultOf op = op.failure.elim (.ok ⟨text, op.parts.mapIdx findings⟩) .error := by
  have hparts : op.parts ≠ [] := by
    have htexts := h.texts
    intro hnone
    rw [searched, hnone] at htexts
    exact hpieces htexts.symm
  rw [Reader.resultOf, h.tally.result hparts (h.openParts_eq_zero hdone), h.selections_eq hdone]
  rfl

end Done

section Failure

theorem failure_completeBranch (i : Nat) :
    (op.completeBranch .silent i).failure = op.failure := by
  unfold completeBranch
  split
  · rfl
  · split
    · rfl
    · dsimp only
      split
      · unfold finishPart
        dsimp only
        split
        · rfl
        · split <;> rfl
      · rfl

/-- Who listens in silence hears of the first look that fails. -/
theorem failure_step_eq {place : Nat} (hplace : place < op.outstanding.length)
    {found : List Char × Progress} (h : op.searched[op.outstanding[place].1]? = some found) :
    (op.step reader .silent place).failure =
      op.failure.or (op.outstanding[place].2.explore reader found.1).failure := by
  rw [searched, List.getElem?_map, Option.map_eq_some_iff] at h
  obtain ⟨part, hpart, rfl⟩ := h
  have hpart' : (op.without place).parts[op.outstanding[place].1]? = some part := hpart
  rw [step_eq_visit hplace]
  simp only [visit, hpart', failure_completeBranch]
  change ((op.without place).absorb _ _).failure = _
  unfold absorb
  cases (op.outstanding[place].2.explore reader part.text).failure with
  | none => exact (Option.or_none ..).symm
  | some failure => rfl

/-- Nobody fails who listens in silence to a search through readable texts. -/
theorem failure_step {place : Nat} (hplace : place < op.outstanding.length)
    (h : op.Searching reader)
    (hreadable : ∀ text ∈ op.searched.map (·.1), Readable reader.locale.grammar text) :
    (op.step reader .silent place).failure = op.failure := by
  obtain ⟨hrange, found, hfound, hrest⟩ := h.branches _ (List.getElem_mem hplace)
  have hread : Readable reader.locale.grammar found.1 :=
    hreadable _ (List.mem_map_of_mem (List.mem_of_getElem? hfound))
  have hexplored : (op.outstanding[place].2.explore reader found.1).failure = none :=
    hrange.failure_explore (hread.of_suffix hrest)
  rw [failure_step_eq hplace hfound, hexplored, Option.or_none]

theorem Steps.failure_eq_none {steps : Nat} {id : Nat} {registered : List Nat} {text : String}
    {pieces : List (List Char)}
    (hreadable : ∀ piece ∈ pieces, Readable reader.locale.grammar piece)
    (h : (start id registered text pieces).Steps reader .silent steps op) : op.failure = none := by
  have hall : op.Searching reader ∧ op.searched.map (·.1) = pieces ∧ op.failure = none := by
    refine h.induct (P := fun op => op.Searching reader ∧ op.searched.map (·.1) = pieces ∧
      op.failure = none) ?_ ⟨searching_start .., by simp [searched_start, Function.comp_def], rfl⟩
    rintro op place hplace ⟨hsearching, htexts, hnone⟩
    refine ⟨hsearching.step hplace, (texts_step place).trans htexts, ?_⟩
    rw [failure_step hplace hsearching (by rwa [htexts]), hnone]
  exact hall.2.2

end Failure

end Operation

namespace Reader

variable {reader : Reader} {text : String}

/-- A single expression is read in one part, and what is found out about it is the result unless
something fails. -/
theorem exists_submit (reader : Reader) (text : String) : ∃ op part steps,
    op = reader.submit .silent 0 [] text false ∧ op.parts = [part] ∧
      part.text = Text.strip text.toList ∧ op.outstanding = [] ∧
      (Operation.start 0 [] text [Text.strip text.toList]).Steps reader .silent steps op ∧
      resultOf op = op.failure.elim (.ok ⟨op.text, [Operation.findings 0 part]⟩) .error := by
  obtain ⟨⟨steps, hsteps⟩, hdone⟩ := @Operation.steps_run reader .silent
    (Operation.start 0 [] text [Text.strip text.toList])
  generalize hop : (Operation.start 0 [] text [Text.strip text.toList]).run reader .silent = op
    at hsteps hdone
  have htexts := hsteps.texts
  obtain ⟨part, hparts⟩ : ∃ part, op.parts = [part] := by
    refine List.length_eq_one_iff.1 ?_
    simpa [Operation.searched] using congrArg List.length htexts
  refine ⟨op, part, steps, ?_, hparts, ?_, hdone, hsteps, ?_⟩
  · simp [submit, hop]
  · simpa [Operation.searched, hparts] using htexts
  · rw [hsteps.resultOf_eq hdone (List.cons_ne_nil _ _), hsteps.text_eq, hparts]
    rfl

theorem read_eq {op : Operation} {part : PartState}
    (hop : op = reader.submit .silent 0 [] text false)
    (hresult : resultOf op =
      op.failure.elim (.ok ⟨op.text, [Operation.findings 0 part]⟩) .error) :
    reader.read text = match op.failure with
      | some failure => .error failure
      | none => match part.progress.outcome part.text with
        | .ok readings => .ok readings
        | .error error => refuse error := by
  rw [read, ← hop, hresult]
  cases op.failure with
  | some failure => rfl
  | none =>
    simp only [Option.elim_none, ok_bind, List.map_cons, Operation.findings]
    cases part.progress.outcome part.text <;> rfl

/-- What is found out about the parts of several expressions is the result unless something
fails. -/
theorem readAll_eq (reader : Reader) (text : String) : reader.readAll text =
    ((Operation.start 0 [] text (reader.locale.split text)).run reader .silent).failure.elim
      (.ok ⟨text, ((Operation.start 0 [] text (reader.locale.split text)).run reader
        .silent).parts.mapIdx Operation.findings⟩) .error := by
  obtain ⟨⟨steps, hsteps⟩, hdone⟩ := @Operation.steps_run reader .silent
    (Operation.start 0 [] text (reader.locale.split text))
  exact hsteps.resultOf_eq hdone (reader.locale.split_ne_nil text)

/-- What is read is a chain of parts that is valid as a whole. -/
theorem mem_readingsOf_of_read {readings : List Term} (h : reader.read text = .ok readings) :
    readings ⊆ readingsOf reader (Text.strip text.toList) := by
  obtain ⟨op, part, steps, hop, hparts, htext, hdone, hsteps, hresult⟩ := exists_submit reader text
  have hsound := hsteps.searching.sound 0 (part.text, part.progress) (by
    simp [Operation.searched, hparts])
  rw [Operation.awaited, hdone] at hsound
  rw [read_eq hop hresult] at h
  split at h
  · cases h
  · split at h
    · rename_i found houtcome
      obtain rfl := Except.ok.inj h
      rw [Progress.outcome_eq] at houtcome
      split at houtcome
      · cases houtcome
      · obtain rfl := Except.ok.inj houtcome
        simpa [htext] using hsound
    · cases h

/-- On a readable text every chain of parts that is valid as a whole is read. -/
theorem exists_read {term : Term}
    (hreadable : Readable reader.locale.grammar (Text.strip text.toList))
    (h : term ∈ readingsOf reader (Text.strip text.toList)) :
    ∃ readings, reader.read text = .ok readings ∧ term ∈ readings := by
  obtain ⟨op, part, steps, hop, hparts, htext, hdone, hsteps, hresult⟩ := exists_submit reader text
  have hperm := hsteps.searching.complete 0 (part.text, part.progress) (by
    simp [Operation.searched, hparts]) (by rwa [htext])
  rw [Operation.awaited, hdone] at hperm
  have hmem : term ∈ part.progress.readings := by
    simpa using hperm.mem_iff.2 (by rwa [htext])
  have hnone : op.failure = none := hsteps.failure_eq_none fun piece hpiece => by
    rwa [List.mem_singleton.1 hpiece]
  refine ⟨part.progress.readings, ?_, hmem⟩
  rw [read_eq hop hresult, hnone, Progress.outcome_eq, if_neg (List.ne_nil_of_mem hmem)]

end Reader

end TimePhrase
