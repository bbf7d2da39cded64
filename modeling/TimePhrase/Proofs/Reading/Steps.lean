import Mathlib.Data.List.Perm.Basic
import TimePhrase.Reading.Run
import TimePhrase.Proofs.Reading.Chain

/-!
# Steps in any order

An operation may look at its outstanding branches in any order. After every step the readings
that have been found for a part and the readings that its outstanding branches come to are the
readings of its text, each as often as before. When nothing is outstanding, the readings have
been found.
-/

namespace TimePhrase

theorem Readable.of_suffix {grammar : Grammar} {text rest : List Char}
    (h : Readable grammar text) (hrest : rest <:+ text) : Readable grammar rest :=
  fun end' hend => h end' (hend.trans hrest)

theorem Progress.readings_reject (progress : Progress) (error : ExpressionError) (offset : Nat) :
    (progress.reject error offset).readings = progress.readings := by
  unfold reject
  split
  · split <;> rfl
  · rfl

theorem Progress.readings_add (progress : Progress) (e : Exploration) :
    (progress.add e).readings = progress.readings ++ e.readings := by
  have hfold (rejections : List (ExpressionError × Nat)) :
      (rejections.foldl (fun p rejection => p.reject rejection.1 rejection.2) progress).readings =
        progress.readings := by
    induction rejections generalizing progress with
    | nil => rfl
    | cons rejection rest ih => exact (ih _).trans (readings_reject _ _ _)
  exact congrArg (· ++ e.readings) (hfold e.rejections)

/-- The fault that counts where there is no reading. -/
def Progress.fault (progress : Progress) (text : List Char) : ExpressionError :=
  match progress.rejection with
  | some (error, offset) =>
    if progress.stuckAt ≤ offset then error
    else .unparsable (String.ofList text) progress.stuckAt
  | .none => .unparsable (String.ofList text) progress.stuckAt

theorem Progress.outcome_eq (progress : Progress) (text : List Char) :
    progress.outcome text =
      if progress.readings = [] then .error (progress.fault text) else .ok progress.readings := by
  unfold outcome fault
  cases progress.readings with
  | nil =>
    simp only [List.isEmpty_nil, Bool.not_true, Bool.false_eq_true, if_false, if_true]
    cases progress.rejection with
    | none => rfl
    | some rejection =>
      dsimp only
      split <;> rfl
  | cons term terms => simp

namespace Operation

variable {reader : Reader} {listener : Listener} {op op' : Operation}

/-- So many steps lead from one state to another, each at a branch that is outstanding. -/
inductive Steps (reader : Reader) (listener : Listener) : Operation → Nat → Operation → Prop
  | done (op : Operation) : Steps reader listener op 0 op
  | step {op op' : Operation} {steps : Nat} (place : Nat) (hplace : place < op.outstanding.length)
      (rest : Steps reader listener (op.step reader listener place) steps op') :
      Steps reader listener op (steps + 1) op'

/-- What every step at an outstanding branch preserves holds after any steps. -/
theorem Steps.induct {P : Operation → Prop} {steps : Nat}
    (hstep : ∀ op place, place < op.outstanding.length → P op → P (op.step reader listener place))
    (hsteps : op.Steps reader listener steps op') (h : P op) : P op' := by
  induction hsteps with
  | done op => exact h
  | step place hplace _ ih => exact ih (hstep _ place hplace h)

/-- The operation without one of its outstanding branches. -/
def without (op : Operation) (place : Nat) : Operation :=
  { op with outstanding := op.outstanding.eraseIdx place }

theorem step_eq_visit {place : Nat} (hplace : place < op.outstanding.length) :
    op.step reader listener place =
      (op.without place).visit reader listener op.outstanding[place].1 op.outstanding[place].2 := by
  rw [step, List.getElem?_eq_getElem hplace]
  rfl

theorem totalWeight_perm {branches others : List Branch} (h : branches.Perm others) :
    Branch.totalWeight branches = Branch.totalWeight others := by
  induction h with
  | nil => rfl
  | cons branch _ ih => simp only [Branch.totalWeight, ih]
  | swap branch other rest => simp only [Branch.totalWeight]; omega
  | trans _ _ ih ih' => exact ih.trans ih'

theorem weight_step_lt {place : Nat} (hplace : place < op.outstanding.length) :
    (op.step reader listener place).weight < op.weight := by
  rw [step_eq_visit hplace]
  have hvisit := weight_visit_lt reader listener (op.without place) op.outstanding[place].1
    op.outstanding[place].2
  have hperm := (List.getElem_cons_eraseIdx_perm hplace).map (·.2)
  have hweight := totalWeight_perm hperm
  simp only [List.map_cons, Branch.totalWeight] at hweight
  simp only [weight, without] at hvisit hweight ⊢
  omega

/-- No sequence of steps is longer than the weight of the operation. -/
theorem Steps.le_weight {steps : Nat} (h : op.Steps reader listener steps op') :
    steps + op'.weight ≤ op.weight := by
  induction h with
  | done op => omega
  | step place hplace _ ih =>
    have hstep := @weight_step_lt reader listener _ _ hplace
    omega

/-- A run looks at outstanding branches until none is left. -/
theorem steps_run (op : Operation) :
    (∃ steps, op.Steps reader listener steps (op.run reader listener)) ∧
      (op.run reader listener).outstanding = [] := by
  fun_induction op.run reader listener with
  | case1 op h => exact ⟨⟨0, .done op⟩, h⟩
  | case2 op index branch others h _ ih =>
    obtain ⟨⟨steps, hsteps⟩, hdone⟩ := ih
    have hplace : 0 < op.outstanding.length := by simp [h]
    refine ⟨⟨steps + 1, .step 0 hplace ?_⟩, hdone⟩
    rw [step_eq_visit hplace]
    simpa [h, without] using hsteps

section Searched

/-- The texts of the parts with what has been found out about them. -/
def searched (op : Operation) : List (List Char × Progress) :=
  op.parts.map fun part => (part.text, part.progress)

@[simp] theorem searched_without (place : Nat) : (op.without place).searched = op.searched := rfl

@[simp] theorem searched_heed (failure : Option Failure) :
    (op.heed failure).searched = op.searched := by cases failure <;> rfl

@[simp] theorem searched_report (notice : Notice) : (op.report notice).searched = op.searched := rfl

theorem searched_modifyPart {i : Nat} {f : PartState → PartState}
    (h : ∀ part, (f part).text = part.text ∧ (f part).progress = part.progress) :
    (op.modifyPart i f).searched = op.searched := by
  apply List.ext_getElem?
  intro j
  simp only [searched, modifyPart, List.getElem?_map, List.getElem?_modify]
  cases op.parts[j]? with
  | none => rfl
  | some part =>
    by_cases hij : i = j
    · simp [hij, h part]
    · simp [hij]

@[simp] theorem searched_finishAll : (op.finishAll listener).searched = op.searched := by
  simp only [finishAll]
  exact searched_heed _

@[simp] theorem searched_finishPart (i : Nat) (part : PartState) :
    (op.finishPart listener i part).searched = op.searched := by
  have hpart : ∀ selection, (op.modifyPart i fun p => { p with selection := selection }).searched
      = op.searched := fun _ => searched_modifyPart fun _ => ⟨rfl, rfl⟩
  unfold finishPart
  dsimp only
  split
  · simp [hpart]
  · split
    · simp only [searched_finishAll]
      exact (searched_heed _).trans (hpart _)
    · exact (searched_heed _).trans (hpart _)

@[simp] theorem searched_completeBranch (i : Nat) :
    (op.completeBranch listener i).searched = op.searched := by
  unfold completeBranch
  split
  · rfl
  · split
    · rfl
    · dsimp only
      split
      · exact (searched_finishPart _ _).trans (searched_modifyPart fun _ => ⟨rfl, rfl⟩)
      · exact searched_modifyPart fun _ => ⟨rfl, rfl⟩

@[simp] theorem searched_enter (i : Nat) (children : List Branch) :
    (op.enter i children).searched = op.searched := by
  have hpart : (op.modifyPart i fun p =>
      { p with pending := p.pending.add children.length }).searched = op.searched :=
    searched_modifyPart fun _ => ⟨rfl, rfl⟩
  exact hpart

theorem searched_absorb (i : Nat) (e : Exploration) :
    (op.absorb i e).searched = op.searched.modify i fun found => (found.1, found.2.add e) := by
  have hpart : (op.modifyPart i fun p => { p with progress := p.progress.add e }).searched =
      op.searched.modify i fun found => (found.1, found.2.add e) := by
    apply List.ext_getElem?
    intro j
    simp only [searched, modifyPart, List.getElem?_map, List.getElem?_modify]
    cases op.parts[j]? with
    | none => rfl
    | some part => by_cases hij : i = j <;> simp [hij]
  unfold absorb
  dsimp only
  split <;> exact hpart

/-- A visit adds what it finds to the part of the branch, and enters the children. -/
theorem searched_visit {i : Nat} {branch : Branch} {found : List Char × Progress}
    (h : op.searched[i]? = some found) :
    let e := branch.explore reader found.1
    (op.visit reader listener i branch).searched =
        op.searched.modify i (fun found => (found.1, found.2.add e)) ∧
      (op.visit reader listener i branch).outstanding =
        op.outstanding ++ e.children.map fun child => (i, child) := by
  rw [searched, List.getElem?_map, Option.map_eq_some_iff] at h
  obtain ⟨part, hpart, rfl⟩ := h
  simp [visit, hpart, searched_absorb]

end Searched

/-- The outstanding branches of a part, the longest waiting first. -/
def queue (op : Operation) (i : Nat) : List Branch :=
  (op.outstanding.filter (·.1 = i)).map (·.2)

theorem queue_append (i j : Nat) (children : List Branch) :
    queue { op with outstanding := op.outstanding ++ children.map fun child => (i, child) } j =
      op.queue j ++ if i = j then children else [] := by
  simp only [queue, List.filter_append, List.map_append, List.filter_map]
  congr 1
  split <;> simp_all [Function.comp_def]

/-- A part waits for the branch that is taken and for what is left. -/
theorem queue_perm {place : Nat} (hplace : place < op.outstanding.length) (j : Nat) :
    (op.queue j).Perm ((if op.outstanding[place].1 = j then [op.outstanding[place].2] else []) ++
      (op.without place).queue j) := by
  have hperm := ((List.getElem_cons_eraseIdx_perm hplace).filter (·.1 = j)).map (·.2)
  refine hperm.symm.trans (.of_eq ?_)
  simp only [queue, without, List.filter_cons]
  split <;> simp_all

/-- The readings that the outstanding branches of a part come to. -/
def awaited (reader : Reader) (op : Operation) (i : Nat) : List Term :=
  (op.outstanding.filter (·.1 = i)).flatMap fun waiting => waiting.2.terms reader

theorem awaited_eq (reader : Reader) (op : Operation) (i : Nat) :
    op.awaited reader i = (op.queue i).flatMap (Branch.terms reader) := by
  rw [awaited, queue, List.flatMap_map]

theorem awaited_append (i j : Nat) (children : List Branch) :
    awaited reader { op with
      outstanding := op.outstanding ++ children.map fun child => (i, child) } j =
        op.awaited reader j ++ if i = j then children.flatMap (Branch.terms reader) else [] := by
  rw [awaited_eq, awaited_eq, queue_append, List.flatMap_append]
  split <;> rfl

/-- Taking a branch from the outstanding ones takes its readings from what its part awaits. -/
theorem awaited_perm {place : Nat} (hplace : place < op.outstanding.length) (j : Nat) :
    (op.awaited reader j).Perm
      ((if op.outstanding[place].1 = j then op.outstanding[place].2.terms reader else []) ++
        (op.without place).awaited reader j) := by
  have hperm := (queue_perm hplace j).flatMap_right (Branch.terms reader)
  rw [List.flatMap_append, ← awaited_eq, ← awaited_eq] at hperm
  refine hperm.trans (.of_eq ?_)
  split <;> simp

/-- The branches read the texts of their parts, and what has been found is no more, and on a
readable text no less, than what is no longer awaited. -/
structure Searching (reader : Reader) (op : Operation) : Prop where
  branches : ∀ waiting ∈ op.outstanding, waiting.2.InRange ∧
    ∃ found, op.searched[waiting.1]? = some found ∧ waiting.2.rest <:+ found.1
  sound : ∀ i found, op.searched[i]? = some found →
    found.2.readings ++ op.awaited reader i ⊆ readingsOf reader found.1
  complete : ∀ i found, op.searched[i]? = some found → Readable reader.locale.grammar found.1 →
    (found.2.readings ++ op.awaited reader i).Perm (readingsOf reader found.1)

theorem searched_start (id : Nat) (registered : List Nat) (text : String)
    (pieces : List (List Char)) :
    (start id registered text pieces).searched = pieces.map fun piece => (piece, .none) := by
  simp [start, searched]

theorem filter_start {pieces : List (List Char)} {piece : List Char} (first : Nat) {i : Nat}
    (h : pieces[i]? = some piece) :
    ((pieces.zipIdx first).map fun (piece, index) => (index, Branch.start piece)).filter
      (·.1 = first + i) = [(first + i, Branch.start piece)] := by
  induction pieces generalizing first i with
  | nil => exact absurd h nofun
  | cons other pieces ih =>
    rw [List.zipIdx_cons, List.map_cons]
    cases i with
    | zero =>
      obtain rfl := Option.some.inj h
      rw [List.filter_cons_of_pos (by simp), List.filter_eq_nil_iff.2]
      · rfl
      · intro waiting hwaiting
        obtain ⟨⟨piece, index⟩, hmem, rfl⟩ := List.mem_map.1 hwaiting
        have hindex := List.le_snd_of_mem_zipIdx hmem
        simp only at hindex ⊢
        simp only [decide_eq_true_eq]
        omega
    | succ i =>
      rw [List.filter_cons_of_neg (by simp), ← Nat.add_assoc, Nat.add_right_comm]
      exact ih (first + 1) h

theorem queue_start (id : Nat) (registered : List Nat) (text : String)
    {pieces : List (List Char)} {piece : List Char} {i : Nat} (h : pieces[i]? = some piece) :
    (start id registered text pieces).queue i = [.start piece] := by
  have hfilter := filter_start 0 h
  rw [Nat.zero_add] at hfilter
  simp only [queue, start, hfilter, List.map_cons, List.map_nil]

theorem awaited_start (id : Nat) (registered : List Nat) (text : String)
    {pieces : List (List Char)} {piece : List Char} {i : Nat} (h : pieces[i]? = some piece) :
    (start id registered text pieces).awaited reader i = readingsOf reader piece := by
  rw [awaited_eq, queue_start id registered text h, List.flatMap_singleton, Branch.terms_start]

theorem searching_start (id : Nat) (registered : List Nat) (text : String)
    (pieces : List (List Char)) : (start id registered text pieces).Searching reader := by
  have hfound {i : Nat} {found : List Char × Progress}
      (h : (start id registered text pieces).searched[i]? = some found) :
      found.2.readings ++ (start id registered text pieces).awaited reader i =
        readingsOf reader found.1 := by
    rw [searched_start, List.getElem?_map, Option.map_eq_some_iff] at h
    obtain ⟨piece, hpiece, rfl⟩ := h
    exact awaited_start id registered text hpiece
  refine ⟨fun waiting hwaiting => ?_, fun i found h => ?_, fun i found h _ => ?_⟩
  · obtain ⟨⟨piece, i⟩, hmem, rfl⟩ := List.mem_map.1 hwaiting
    have hpiece : pieces[i]? = some piece := List.mem_zipIdx_iff_getElem?.1 hmem
    refine ⟨Branch.inRange_start piece, (piece, .none), ?_, List.suffix_refl _⟩
    rw [searched_start, List.getElem?_map, hpiece]
    rfl
  · rw [hfound h]
    exact List.Subset.refl _
  · rw [hfound h]

/-- What is found or awaited after a visit of a branch was found or awaited before, but for the
readings of the branch, of which the visit finds some and awaits others. -/
theorem found_visit {i j : Nat} {branch : Branch} {current found : List Char × Progress}
    (hcurrent : op.searched[i]? = some current)
    (hfound : (op.visit reader listener i branch).searched[j]? = some found) :
    let e := branch.explore reader current.1
    ∃ before, op.searched[j]? = some before ∧ before.1 = found.1 ∧
      (found.2.readings ++ (op.visit reader listener i branch).awaited reader j).Perm
        (before.2.readings ++ ((if i = j then e.readings ++ e.children.flatMap
          (Branch.terms reader) else []) ++ op.awaited reader j)) := by
  intro e
  obtain ⟨hsearched, houtstanding⟩ := @searched_visit reader listener op i branch current hcurrent
  have hawaited : (op.visit reader listener i branch).awaited reader j =
      op.awaited reader j ++ if i = j then e.children.flatMap (Branch.terms reader) else [] := by
    rw [← awaited_append]
    simp only [awaited, houtstanding, e]
  rw [hsearched, List.getElem?_modify, Option.map_eq_map, Option.map_eq_some_iff] at hfound
  obtain ⟨before, hbefore, rfl⟩ := hfound
  refine ⟨before, hbefore, ?_, ?_⟩
  · split <;> rfl
  · rw [hawaited]
    split
    · simp only [Progress.readings_add, List.append_assoc]
      exact (List.perm_append_comm.append_left _).append_left _
    · simp

/-- A step keeps the readings that are found or awaited together. -/
theorem Searching.step {place : Nat} (hplace : place < op.outstanding.length)
    (h : op.Searching reader) : (op.step reader listener place).Searching reader := by
  have hwaiting := h.branches _ (List.getElem_mem hplace)
  have hperm := @awaited_perm reader _ _ hplace
  rw [step_eq_visit hplace]
  generalize op.outstanding[place] = waiting at hwaiting hperm
  obtain ⟨i, branch⟩ := waiting
  obtain ⟨hrange, current, hcurrent, hrest⟩ := hwaiting
  have hfound {j : Nat} {found : List Char × Progress} :=
    @found_visit reader listener (op.without place) i j branch current found hcurrent
  obtain ⟨hsearched, houtstanding⟩ :=
    @searched_visit reader listener (op.without place) i branch current hcurrent
  refine ⟨fun waiting hmem => ?_, fun j found hj => ?_, fun j found hj hreadable => ?_⟩
  · have htexts {k : Nat} {before : List Char × Progress} (hk : op.searched[k]? = some before) :
        ∃ found, ((op.without place).visit reader listener i branch).searched[k]? = some found ∧
          found.1 = before.1 := by
      rw [hsearched, List.getElem?_modify, searched_without, hk]
      refine ⟨_, rfl, ?_⟩
      split <;> rfl
    rw [houtstanding] at hmem
    rcases List.mem_append.1 hmem with hmem | hmem
    · obtain ⟨hinRange, before, hbefore, hsuffix⟩ := h.branches _ (List.mem_of_mem_eraseIdx hmem)
      obtain ⟨found, hk, htext⟩ := htexts hbefore
      exact ⟨hinRange, found, hk, htext ▸ hsuffix⟩
    · obtain ⟨child, hchild, rfl⟩ := List.mem_map.1 hmem
      obtain ⟨hinRange, hsuffix⟩ := hrange.of_mem_explore hchild
      obtain ⟨found, hk, htext⟩ := htexts hcurrent
      exact ⟨hinRange, found, hk, htext ▸ hsuffix.trans hrest⟩
  · obtain ⟨before, hbefore, htext, hnow⟩ := hfound hj
    rw [← htext]
    refine List.Subset.trans hnow.subset (List.Subset.trans ?_ (h.sound j before hbefore))
    refine List.Subset.trans ?_ ((hperm j).symm.append_left _).subset
    split
    · subst j
      obtain rfl : current = before := Option.some.inj (hcurrent.symm.trans hbefore)
      intro term hterm
      refine List.mem_append.2 ((List.mem_append.1 hterm).imp_right fun hterm => ?_)
      exact List.mem_append.2 ((List.mem_append.1 hterm).imp_left (Branch.terms_explore_subset ·))
    · exact List.Subset.refl _
  · obtain ⟨before, hbefore, htext, hnow⟩ := hfound hj
    rw [← htext] at hreadable ⊢
    refine hnow.trans (.trans ?_ (h.complete j before hbefore hreadable))
    refine List.Perm.trans (.of_eq ?_) ((hperm j).symm.append_left _)
    split
    · subst j
      obtain rfl : current = before := Option.some.inj (hcurrent.symm.trans hbefore)
      rw [Branch.terms_explore hrange (hreadable.of_suffix hrest)]
    · rfl

theorem Steps.searching {steps : Nat} {id : Nat} {registered : List Nat} {text : String}
    {pieces : List (List Char)}
    (h : (start id registered text pieces).Steps reader listener steps op) : op.Searching reader :=
  h.induct (fun _ _ hplace => Searching.step hplace) (searching_start id registered text pieces)

theorem map_fst_modify {α β : Type} (pairs : List (α × β)) (i : Nat) (f : β → β) :
    (pairs.modify i fun pair => (pair.1, f pair.2)).map (·.1) = pairs.map (·.1) := by
  induction pairs generalizing i with
  | nil => simp
  | cons pair pairs ih =>
    cases i with
    | zero => rfl
    | succ i => simp [ih]

/-- No step changes the text of a part. -/
theorem texts_step (place : Nat) :
    (op.step reader listener place).searched.map (·.1) = op.searched.map (·.1) := by
  unfold step
  split
  · rfl
  · unfold visit
    split
    · rfl
    · simp only [searched_completeBranch, searched_enter, searched_absorb]
      exact map_fst_modify op.searched _ fun progress => progress.add _

theorem Steps.texts {steps : Nat} {id : Nat} {registered : List Nat} {text : String}
    {pieces : List (List Char)}
    (h : (start id registered text pieces).Steps reader listener steps op) :
    op.searched.map (·.1) = pieces := by
  refine h.induct (P := fun op => op.searched.map (·.1) = pieces) ?_ ?_
  · exact fun _ place _ htexts => (texts_step place).trans htexts
  · simp [searched_start, Function.comp_def]

/-- In whatever order the branches of readable texts are taken, the search comes to its end, and
then it has found for every text what generating all chains and testing each of them finds. -/
theorem readings_perm_readingsOf (reader : Reader) (listener : Listener) (id : Nat)
    (registered : List Nat) (text : String) (pieces : List (List Char))
    (hreadable : ∀ piece ∈ pieces, Readable reader.locale.grammar piece) :
    (∀ steps op, (start id registered text pieces).Steps reader listener steps op →
      steps ≤ (start id registered text pieces).weight ∧
        (op.outstanding = [] → List.Forall₂ (fun piece part => part.text = piece ∧
          part.progress.readings.Perm (readingsOf reader piece)) pieces op.parts)) ∧
      (∃ steps, (start id registered text pieces).Steps reader listener steps
        ((start id registered text pieces).run reader listener)) ∧
      ((start id registered text pieces).run reader listener).outstanding = [] := by
  obtain ⟨hrun, hdone⟩ := @steps_run reader listener (start id registered text pieces)
  refine ⟨fun steps op hsteps => ⟨?_, fun hnone => ?_⟩, hrun, hdone⟩
  · have := hsteps.le_weight
    omega
  · have htexts : op.parts.map PartState.text = pieces := by
      simpa [searched, Function.comp_def] using hsteps.texts
    rw [← htexts, List.forall₂_map_left_iff, List.forall₂_same]
    intro part hpart
    obtain ⟨i, hi⟩ := List.mem_iff_getElem?.1 hpart
    have hfound : op.searched[i]? = some (part.text, part.progress) := by
      simp [searched, hi]
    have hperm := hsteps.searching.complete i _ hfound
      (hreadable _ (htexts ▸ List.mem_map_of_mem hpart))
    rw [awaited, hnone] at hperm
    exact ⟨rfl, by simpa using hperm⟩

/-- Both parts of "9:00 tomorrow; in 2 weeks" are readable, so all of this holds of them. -/
theorem readings_perm_readingsOf_tomorrow :
    let reader : Reader := ⟨.english, ⟨⟨2024, 1, 3, by decide⟩, 9, 30, 0, 0⟩, .midnight⟩
    let pieces := ["9:00 tomorrow".toList, "in 2 weeks".toList]
    let op := start 0 [] "9:00 tomorrow; in 2 weeks" pieces
    (∀ piece ∈ pieces, Readable reader.locale.grammar piece) ∧
      (∀ steps op', op.Steps reader .silent steps op' → steps ≤ op.weight ∧
        (op'.outstanding = [] → List.Forall₂ (fun piece part => part.text = piece ∧
          part.progress.readings.Perm (readingsOf reader piece)) pieces op'.parts)) ∧
      (∃ steps, op.Steps reader .silent steps (op.run reader .silent)) ∧
      (op.run reader .silent).outstanding = [] := by
  intro reader pieces op
  have hreadable : ∀ piece ∈ pieces, Readable reader.locale.grammar piece := by decide +kernel
  exact ⟨hreadable, readings_perm_readingsOf reader .silent 0 [] _ pieces hreadable⟩

end Operation

end TimePhrase
