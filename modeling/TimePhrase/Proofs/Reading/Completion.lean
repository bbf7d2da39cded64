import TimePhrase.Proofs.Reading.AnyOrder

/-!
# What an operation reports

An operation tells its listener of every part when nothing is left to do for it, and of the whole
when nothing is left to do for any part. In whatever order the branches are looked at, and
whatever fails, no part is left out or told of twice, and the end is told of once and last.
-/

namespace TimePhrase

namespace Notice

/-- The operation that reports. -/
def operation : Notice → Nat
  | .branchFailed operation _ _ | .partDone operation _ | .finished operation _ _ => operation

/-- The failure of a look at a branch, with the index of its part. -/
def failedLook? : Notice → Option (Nat × Failure)
  | .branchFailed _ index failure => some (index, failure)
  | .partDone _ _ | .finished _ _ _ => none

/-- The report on a part. -/
def part? : Notice → Option Selection
  | .partDone _ selection => some selection
  | .branchFailed _ _ _ | .finished _ _ _ => none

/-- The report on everything. -/
def whole? : Notice → Option Selections
  | .finished _ result _ => some result
  | .branchFailed _ _ _ | .partDone _ _ => none

end Notice

/-- What goes wrong when something is reported: the failure reported, or that of the listener who
is told. -/
def Listener.failure? (listener : Listener) : Notice → Option Failure
  | .branchFailed _ _ failure => some failure
  | .partDone operation selection => listener.onPart operation selection
  | .finished operation result _ => listener.onFinished operation result

namespace Operation

variable {reader : Reader} {listener : Listener} {op op' : Operation}

/-- Reports something, and keeps what goes wrong with it. -/
def tell (op : Operation) (listener : Listener) (notice : Notice) : Operation :=
  (op.report notice).heed (listener.failure? notice)

/-- What the look at an outstanding branch brings to light, with the index of its part. -/
def look? (reader : Reader) (op : Operation) (place : Nat) : Option (Nat × Exploration) :=
  op.outstanding[place]?.bind fun (i, branch) =>
    op.parts[i]?.map fun part => (i, branch.explore reader part.text)

/-- What the looks at the outstanding branches in the given places bring to light. -/
def looks (reader : Reader) (listener : Listener) (op : Operation) :
    List Nat → List (Nat × Exploration)
  | [] => []
  | place :: places =>
    (op.look? reader place).toList ++ (op.step reader listener place).looks reader listener places

/-- The failure of a look, with the index of the part. -/
def failed? (look : Nat × Exploration) : Option (Nat × Failure) :=
  look.2.failure.map fun failure => (look.1, failure)

theorem Steps.follow {steps : Nat} (h : op.Steps reader listener steps op') :
    ∃ places, op.follow reader listener places = some op' := by
  induction h with
  | done op => exact ⟨[], rfl⟩
  | step place hplace _ ih =>
    obtain ⟨places, hfollow⟩ := ih
    exact ⟨place :: places, by rw [Operation.follow, if_pos hplace, hfollow]⟩

section Fields

variable (op) in
@[simp] theorem id_tell (notice : Notice) : (op.tell listener notice).id = op.id := by
  unfold tell heed
  cases listener.failure? notice <;> rfl

variable (op) in
@[simp] theorem parts_tell (notice : Notice) : (op.tell listener notice).parts = op.parts :=
  parts_heed _

variable (op) in
@[simp] theorem openParts_tell (notice : Notice) :
    (op.tell listener notice).openParts = op.openParts :=
  openParts_heed _

variable (op) in
@[simp] theorem registered_tell (notice : Notice) :
    (op.tell listener notice).registered = op.registered := by
  unfold tell heed
  cases listener.failure? notice <;> rfl

variable (op) in
@[simp] theorem result_tell (notice : Notice) : (op.tell listener notice).result = op.result := by
  unfold tell heed
  cases listener.failure? notice <;> rfl

variable (op) in
@[simp] theorem notices_tell (notice : Notice) :
    (op.tell listener notice).notices = op.notices ++ [notice] := by
  unfold tell heed
  cases listener.failure? notice <;> rfl

variable (op) in
/-- The first failure is kept. -/
@[simp] theorem failure_tell (notice : Notice) :
    (op.tell listener notice).failure = op.failure.or (listener.failure? notice) := by
  unfold tell heed
  cases listener.failure? notice with
  | none => exact (Option.or_none ..).symm
  | some failure => rfl

theorem absorb_eq_tell (listener : Listener) (i : Nat) (e : Exploration) :
    op.absorb i e = e.failure.elim
      (op.modifyPart i fun p => { p with progress := p.progress.add e }) fun failure =>
        (op.modifyPart i fun p => { p with progress := p.progress.add e }).tell listener
          (.branchFailed op.id i failure) := by
  unfold absorb
  cases e.failure <;> rfl

theorem finishAll_eq_tell : op.finishAll listener =
    { ({ op with registered := op.registered.erase op.id } : Operation).tell listener
        (.finished op.id op.selections (op.registered.erase op.id).length) with
      result := (op.finishAll listener).result } :=
  rfl

/-- With an open part left, a part that is done is told of, and with the last one everything is. -/
theorem finishPart_eq_tell {i : Nat} {part : PartState} (h : 0 < op.openParts.value) :
    let told := (op.modifyPart i fun p => { p with selection := some (findings i part) }).tell
      listener (.partDone op.id (findings i part))
    let left : Operation := { told with openParts := ⟨op.openParts.value - 1⟩ }
    op.finishPart listener i part =
      if left.openParts.value = 0 then left.finishAll listener else left := by
  intro told left
  have hdone : told.openParts.done = .ok ⟨op.openParts.value - 1⟩ := by
    rw [openParts_tell]
    change op.openParts.done = _
    rw [Counter.done, if_neg (by omega)]
  generalize hresult : (if left.openParts.value = 0 then left.finishAll listener else left) = result
  dsimp only [finishPart]
  split
  · next heq => cases heq.symm.trans hdone
  · next heq =>
    obtain rfl := Except.ok.inj (heq.symm.trans hdone)
    exact hresult

/-- A branch that is done is taken off the count of its part. With the last one the part is
done. -/
theorem completeBranch_cases {i : Nat} {part : PartState} (h : op.Tally (some i))
    (hpart : op.parts[i]? = some part) :
    (op.waiting i ≠ 0 ∧ op.completeBranch listener i =
      op.modifyPart i fun p => { p with pending := ⟨op.waiting i⟩ }) ∨
    (op.waiting i = 0 ∧ op.completeBranch listener i =
      (op.modifyPart i fun p => { p with pending := ⟨0⟩ }).finishPart listener i part) := by
  have hpending := h.pending i part hpart
  simp only [if_true] at hpending
  have hdone : part.pending.done = .ok ⟨op.waiting i⟩ := by
    rw [Counter.done, if_neg (by omega), hpending]
    simp
  simp only [completeBranch, hpart, hdone]
  by_cases hlast : op.waiting i = 0
  · exact .inr ⟨hlast, by simp [hlast]⟩
  · exact .inl ⟨hlast, if_neg (by simpa using hlast)⟩

end Fields

section Told

/-- What an operation has reported so far. -/
structure Told (listener : Listener) (id : Nat) (failed : List (Nat × Failure)) (op : Operation) :
    Prop where
  id_eq : op.id = id
  senders : ∀ notice ∈ op.notices, notice.operation = id
  failedLooks : op.notices.filterMap Notice.failedLook? = failed
  indices : ∀ selection ∈ op.notices.filterMap Notice.part?, selection.index < op.parts.length
  parts : ∀ i part, op.parts[i]? = some part →
    (op.notices.filterMap Notice.part?).filter (·.index = i) = (report? i part).toList
  failure : op.failure = op.notices.findSome? listener.failure?

/-- The operation goes on, and nobody has been told of its end. -/
structure Running (id : Nat) (registered : List Nat) (op : Operation) : Prop where
  registered_eq : op.registered = id :: registered
  result_eq : op.result = none
  untold : op.notices.filterMap Notice.whole? = []

/-- The operation has been taken off the register before its end was told of, which was told of
last. -/
structure Finished (id : Nat) (registered : List Nat) (op : Operation) : Prop where
  registered_eq : op.registered = registered
  result_eq : op.result = some (op.failure.elim (.ok op.selections) .error)
  told : ∃ before, op.notices = before ++ [.finished id op.selections registered.length] ∧
    before.filterMap Notice.whole? = []

variable {id : Nat} {registered : List Nat} {failed : List (Nat × Failure)}

theorem told_start (listener : Listener) (id : Nat) (registered : List Nat) (text : String)
    (pieces : List (List Char)) : (start id registered text pieces).Told listener id [] where
  id_eq := rfl
  senders := by simp [start]
  failedLooks := rfl
  indices := by simp [start]
  parts := by
    intro i part hpart
    simp only [start, List.getElem?_map, Option.map_eq_some_iff] at hpart
    obtain ⟨piece, -, rfl⟩ := hpart
    rfl
  failure := rfl

/-- The first failure is the first of those that came with what was reported. -/
theorem findSome?_failure_tell {notice : Notice}
    (h : op.failure = op.notices.findSome? listener.failure?) :
    (op.tell listener notice).failure =
      (op.tell listener notice).notices.findSome? listener.failure? := by
  rw [failure_tell, notices_tell, List.findSome?_append, List.findSome?_singleton, h]

theorem forall_operation_tell {notice : Notice} (h : ∀ other ∈ op.notices, other.operation = id)
    (hnotice : notice.operation = id) :
    ∀ other ∈ (op.tell listener notice).notices, other.operation = id := by
  rw [notices_tell]
  exact List.forall_mem_append.2 ⟨h, List.forall_mem_singleton.2 hnotice⟩

theorem filterMap_tell_of_none {α : Type} {f : Notice → Option α} {notice : Notice}
    (h : f notice = none) :
    (op.tell listener notice).notices.filterMap f = op.notices.filterMap f := by
  simp [h]

theorem Told.tell_failed (h : op.Told listener id failed) (i : Nat) (failure : Failure) :
    (op.tell listener (.branchFailed id i failure)).Told listener id (failed ++ [(i, failure)])
    where
  id_eq := by rw [id_tell, h.id_eq]
  senders := forall_operation_tell h.senders rfl
  failedLooks := by
    rw [notices_tell, List.filterMap_append, h.failedLooks]
    rfl
  indices := by
    rw [filterMap_tell_of_none rfl, parts_tell]
    exact h.indices
  parts := by
    rw [filterMap_tell_of_none rfl, parts_tell]
    exact h.parts
  failure := findSome?_failure_tell h.failure

theorem Running.tell (listener : Listener) (h : op.Running id registered) {notice : Notice}
    (hnotice : notice.whole? = none) : (op.tell listener notice).Running id registered :=
  ⟨by rw [registered_tell, h.registered_eq], by rw [result_tell, h.result_eq],
    by rw [filterMap_tell_of_none hnotice, h.untold]⟩

/-- A part that changes while it is open has nothing told of it. -/
theorem Told.modify {i : Nat} {part : PartState} {f : PartState → PartState}
    (h : op.Told listener id failed) (hpart : op.parts[i]? = some part)
    (hopen : part.pending.value ≠ 0) (hopen' : (f part).pending.value ≠ 0) :
    (op.modifyPart i f).Told listener id failed where
  id_eq := h.id_eq
  senders := h.senders
  failedLooks := h.failedLooks
  indices := by simpa [modifyPart] using h.indices
  parts := by
    intro j other hj
    obtain ⟨rfl, rfl⟩ | ⟨-, hj⟩ := getElem?_modify_cases hpart hj
    · have hnone := h.parts j part hpart
      rw [report?, if_neg hopen] at hnone
      rw [report?, if_neg hopen']
      exact hnone
    · exact h.parts j other hj
  failure := h.failure

/-- A part that is done is told of, for the first time. -/
theorem Told.tell_part {i : Nat} {part : PartState} (h : op.Told listener id failed)
    (hpart : op.parts[i]? = some part) (hopen : part.pending.value ≠ 0) :
    ((op.modifyPart i fun p => { p with
      pending := ⟨0⟩, selection := some (findings i part) }).tell listener
        (.partDone id (findings i part))).Told listener id failed where
  id_eq := (id_tell _ _).trans h.id_eq
  senders := forall_operation_tell h.senders rfl
  failedLooks := (filterMap_tell_of_none rfl).trans h.failedLooks
  indices := by
    rw [notices_tell, List.filterMap_append, parts_tell, modifyPart, List.length_modify]
    exact List.forall_mem_append.2 ⟨h.indices,
      List.forall_mem_singleton.2 (List.getElem?_eq_some_iff.1 hpart).1⟩
  parts := by
    intro j other hj
    rw [parts_tell] at hj
    rw [notices_tell, List.filterMap_append, List.filter_append]
    change ((op.notices.filterMap Notice.part?).filter (·.index = j)) ++
      [findings i part].filter (·.index = j) = _
    obtain ⟨rfl, rfl⟩ | ⟨hne, hj⟩ := getElem?_modify_cases hpart hj
    · rw [h.parts j part hpart, report?, if_neg hopen]
      simp [findings, report?]
    · rw [h.parts j other hj]
      simp [findings, hne.symm]
  failure := findSome?_failure_tell h.failure

theorem Told.finishAll (h : op.Told listener id failed) :
    (op.finishAll listener).Told listener id failed := by
  obtain rfl := h.id_eq
  rw [finishAll_eq_tell]
  generalize hleft : ({ op with registered := op.registered.erase op.id } : Operation) = left
  have htold : left.Told listener op.id failed := by
    rw [← hleft]
    exact ⟨h.id_eq, h.senders, h.failedLooks, h.indices, h.parts, h.failure⟩
  generalize op.selections = result, (op.registered.erase op.id).length = pending
  exact {
    id_eq := (id_tell _ _).trans htold.id_eq
    senders := forall_operation_tell htold.senders rfl
    failedLooks := (filterMap_tell_of_none rfl).trans htold.failedLooks
    indices := by
      dsimp only
      rw [filterMap_tell_of_none rfl, parts_tell]
      exact htold.indices
    parts := by
      dsimp only
      rw [filterMap_tell_of_none rfl, parts_tell]
      exact htold.parts
    failure := findSome?_failure_tell htold.failure }

theorem selections_finishAll : (op.finishAll listener).selections = op.selections := by
  rw [selections, parts_finishAll, text_finishAll]
  rfl

theorem Running.finishAll (h : op.Running id registered) (hid : op.id = id) :
    (op.finishAll listener).Finished id registered := by
  have hregistered : op.registered.erase op.id = registered := by
    rw [h.registered_eq, hid, List.erase_cons_head]
  refine ⟨?_, result_finishAll, op.notices, ?_, h.untold⟩
  · rw [finishAll_eq_tell]
    exact (registered_tell _ _).trans hregistered
  · rw [selections_finishAll, finishAll_eq_tell, hregistered, hid]
    exact notices_tell _ _

/-- What an operation has reported is in order, and its end is told of just when no part is left
open. -/
structure Accounted (listener : Listener) (id : Nat) (registered : List Nat)
    (failed : List (Nat × Failure)) (op : Operation) : Prop where
  told : op.Told listener id failed
  running : op.openParts.value ≠ 0 → op.Running id registered
  finished : op.openParts.value = 0 → op.Finished id registered

theorem accounted_start (listener : Listener) (id : Nat) (registered : List Nat) (text : String)
    {pieces : List (List Char)} (hpieces : pieces ≠ []) :
    (start id registered text pieces).Accounted listener id registered [] where
  told := told_start listener id registered text pieces
  running := fun _ => ⟨rfl, rfl, rfl⟩
  finished := fun h => absurd h (by simpa [start] using hpieces)

theorem Told.absorb {i : Nat} {part : PartState} (h : op.Told listener id failed)
    (hpart : op.parts[i]? = some part) (hopen : part.pending.value ≠ 0) (e : Exploration) :
    (op.absorb i e).Told listener id (failed ++ (failed? (i, e)).toList) := by
  have hadded := h.modify (f := fun p => { p with progress := p.progress.add e }) hpart hopen hopen
  rw [absorb_eq_tell listener, failed?]
  cases e.failure with
  | none => simpa using hadded
  | some failure => simpa [h.id_eq] using hadded.tell_failed i failure

theorem Running.absorb (listener : Listener) (h : op.Running id registered) (i : Nat)
    (e : Exploration) : (op.absorb i e).Running id registered := by
  have hadded : (op.modifyPart i fun p => { p with progress := p.progress.add e }).Running id
      registered := ⟨h.registered_eq, h.result_eq, h.untold⟩
  rw [absorb_eq_tell listener]
  cases e.failure with
  | none => exact hadded
  | some failure => exact hadded.tell listener rfl

theorem Told.enter {i : Nat} {part : PartState} (h : op.Told listener id failed)
    (hpart : op.parts[i]? = some part) (hopen : 0 < part.pending.value)
    (children : List Branch) : (op.enter i children).Told listener id failed := by
  have hleft : (part.pending.add children.length).value ≠ 0 := by
    change part.pending.value + (children.length : Int) ≠ 0
    omega
  have hentered := h.modify (f := fun p => { p with pending := p.pending.add children.length })
    hpart (by omega) hleft
  exact ⟨hentered.id_eq, hentered.senders, hentered.failedLooks, hentered.indices, hentered.parts,
    hentered.failure⟩

/-- When the last branch of a part is done the part is told of, and when the last part is done
everything is. -/
theorem Told.completeBranch {i : Nat} {part : PartState} (h : op.Told listener id failed)
    (hrunning : op.Running id registered) (htally : op.Tally (some i))
    (hpart : op.parts[i]? = some part) :
    (op.completeBranch listener i).Accounted listener id registered failed := by
  have hopen : part.pending.value ≠ 0 := by
    have := htally.pending i part hpart
    simp only [if_true] at this
    omega
  have hparts := htally.openParts_pos hpart
  obtain ⟨hleft, heq⟩ | ⟨-, heq⟩ := @completeBranch_cases listener op i part htally hpart
  · rw [heq]
    exact {
      told := h.modify hpart hopen (by simpa using hleft)
      running := fun _ => ⟨hrunning.registered_eq, hrunning.result_eq, hrunning.untold⟩
      finished := fun hnone => absurd hnone (by change op.openParts.value ≠ 0; omega) }
  · rw [heq, finishPart_eq_tell (by exact hparts)]
    have htwice : (op.modifyPart i fun p => { p with pending := ⟨0⟩ }).modifyPart i (fun p =>
        { p with selection := some (findings i part) }) = op.modifyPart i fun p =>
          { p with pending := ⟨0⟩, selection := some (findings i part) } := by
      simp only [modifyPart, List.modify_modify_eq]
      rfl
    have hid : (op.modifyPart i fun p => { p with pending := ⟨0⟩ }).id = id := h.id_eq
    dsimp only
    rw [htwice, hid]
    have htold := h.tell_part hpart hopen
    have hstill : ((op.modifyPart i fun p => { p with
        pending := ⟨0⟩, selection := some (findings i part) }).tell listener
          (.partDone id (findings i part))).Running id registered := by
      refine Running.tell listener ?_ rfl
      exact ⟨hrunning.registered_eq, hrunning.result_eq, hrunning.untold⟩
    generalize Operation.tell _ listener _ = told at htold hstill ⊢
    generalize (op.modifyPart i fun p => { p with pending := ⟨0⟩ }).openParts.value - 1 = left
    have htold' : ({ told with openParts := ⟨left⟩ } : Operation).Told listener id failed :=
      ⟨htold.id_eq, htold.senders, htold.failedLooks, htold.indices, htold.parts, htold.failure⟩
    have hstill' : ({ told with openParts := ⟨left⟩ } : Operation).Running id registered :=
      ⟨hstill.registered_eq, hstill.result_eq, hstill.untold⟩
    split
    · rename_i hzero
      refine ⟨htold'.finishAll, fun hne => ?_, fun _ => hstill'.finishAll htold'.id_eq⟩
      rw [openParts_finishAll] at hne
      exact absurd hzero hne
    · rename_i hne
      exact ⟨htold', fun _ => hstill', fun hzero => absurd hzero hne⟩

theorem look?_eq {place : Nat} {part : PartState} (hplace : place < op.outstanding.length)
    (hpart : op.parts[op.outstanding[place].1]? = some part) :
    op.look? reader place = some (op.outstanding[place].1,
      op.outstanding[place].2.explore reader part.text) := by
  simp [look?, hplace, hpart]

theorem Accounted.step {place : Nat} (hplace : place < op.outstanding.length)
    (h : op.Accounted listener id registered failed) (htally : op.Tally none)
    (hsearching : op.Searching reader) :
    (op.step reader listener place).Accounted listener id registered
      (failed ++ (op.look? reader place).toList.filterMap failed?) := by
  obtain ⟨-, found, hfound, -⟩ := hsearching.branches _ (List.getElem_mem hplace)
  obtain ⟨part, hpart⟩ : ∃ part, op.parts[op.outstanding[place].1]? = some part := by
    rw [searched, List.getElem?_map, Option.map_eq_some_iff] at hfound
    exact hfound.imp fun _ h => h.1
  have hwithout := htally.without hplace
  rw [look?_eq hplace hpart, step_eq_visit hplace]
  generalize op.outstanding[place] = waiting at hpart hwithout ⊢
  obtain ⟨i, branch⟩ := waiting
  have hpart' : (op.without place).parts[i]? = some part := hpart
  simp only [visit, hpart']
  generalize branch.explore reader part.text = e
  have hpending := hwithout.pending i part hpart'
  simp only [if_true] at hpending
  have hrunning : (op.without place).Running id registered := by
    have hne : op.openParts.value ≠ 0 := by
      have hpos : 0 < op.openParts.value := hwithout.openParts_pos hpart'
      omega
    obtain ⟨hregistered, hresult, huntold⟩ := h.running hne
    exact ⟨hregistered, hresult, huntold⟩
  have htold : (op.without place).Told listener id failed :=
    ⟨h.told.id_eq, h.told.senders, h.told.failedLooks, h.told.indices, h.told.parts,
      h.told.failure⟩
  have habsorbed : ((op.without place).absorb i e).parts[i]? =
      some { part with progress := part.progress.add e } := by
    rw [parts_absorb, List.getElem?_modify_eq, hpart']
    rfl
  have hentered : (((op.without place).absorb i e).enter i e.children).parts[i]? = some { part with
      progress := part.progress.add e, pending := part.pending.add e.children.length } := by
    simp [Operation.enter, modifyPart, habsorbed]
  have hlooked : (failed? (i, e)).toList = [(i, e)].filterMap failed? := by
    cases hfailed : failed? (i, e) <;> simp [hfailed]
  have htold' := ((htold.absorb hpart' (by omega) e).enter habsorbed (by simp only; omega)
    e.children).completeBranch
    (by
      obtain ⟨hregistered, hresult, huntold⟩ := hrunning.absorb listener i e
      exact ⟨hregistered, hresult, huntold⟩)
    ((hwithout.absorb hpart' e).enter habsorbed e.children) hentered
  rw [hlooked] at htold'
  exact htold'

end Told

section Orderly

/-- An operation on the pieces of a text, after the given looks: its counters agree with what is
outstanding, and it has reported every failed look, every part that is done and, when nothing is
left to do, its end, each just once. -/
structure Orderly (reader : Reader) (listener : Listener) (id : Nat) (registered : List Nat)
    (text : String) (pieces : List (List Char)) (looks : List (Nat × Exploration))
    (op : Operation) : Prop where
  /-- Every piece of the text has its part. -/
  texts : op.parts.map PartState.text = pieces
  /-- A part counts the branches that are outstanding for it. -/
  pending : ∀ i part, op.parts[i]? = some part → part.pending.value = (op.waiting i : Int)
  /-- The operation counts the parts that have such branches. -/
  openParts : op.openParts.value = op.parts.countP (·.pending.value ≠ 0)
  /-- Whichever branch is looked at next, it can be counted off once its children are counted, which
  leaves what is outstanding then, and should its part be done, that can be counted off as well. -/
  done : ∀ place (hplace : place < op.outstanding.length), ∃ part,
    op.parts[op.outstanding[place].1]? = some part ∧
    (part.pending.add
      (op.outstanding[place].2.explore reader part.text).children.length).done =
        .ok ⟨(op.step reader listener place).waiting op.outstanding[place].1⟩ ∧
    op.openParts.done = .ok ⟨op.openParts.value - 1⟩
  /-- All reports bear the number of the operation. -/
  senders : ∀ notice ∈ op.notices, notice.operation = id
  /-- Every look that has failed is reported, in the order of the looks. -/
  failedLooks : op.notices.filterMap Notice.failedLook? = looks.filterMap failed?
  /-- No part is reported on that does not exist. -/
  indices : ∀ selection ∈ op.notices.filterMap Notice.part?, selection.index < pieces.length
  /-- A part is reported on once when nothing is outstanding for it, with what has been found out
  about it, and not at all before. -/
  reports : ∀ i part, op.parts[i]? = some part →
    (op.notices.filterMap Notice.part?).filter (·.index = i) =
      if op.waiting i = 0 then [findings i part] else []
  /-- The failure that counts is the first one, of a look or of the listener. -/
  failure : op.failure = op.notices.findSome? listener.failure?
  /-- As long as something is outstanding the operation is registered and has no result, and its
  end is not reported. -/
  running : op.outstanding ≠ [] → op.registered = id :: registered ∧ op.result = none ∧
    op.notices.filterMap Notice.whole? = []
  /-- When nothing is outstanding, the operation has been taken off the register, then its end has
  been reported, once and last, and it has come to its result, with the parts in the order of the
  text. -/
  finished : op.outstanding = [] → op.registered = registered ∧
    (∃ before, before.filterMap Notice.whole? = [] ∧ op.notices =
      before ++ [.finished id ⟨text, op.parts.mapIdx findings⟩ registered.length]) ∧
    op.result = some (op.failure.elim (.ok ⟨text, op.parts.mapIdx findings⟩) .error)

variable {steps id : Nat} {registered : List Nat} {text : String} {pieces : List (List Char)}
  {places : List Nat}

theorem Accounted.follow {failed : List (Nat × Failure)}
    (h : op.Accounted listener id registered failed) (htally : op.Tally none)
    (hsearching : op.Searching reader) (hfollow : op.follow reader listener places = some op') :
    op'.Accounted listener id registered
      (failed ++ (op.looks reader listener places).filterMap failed?) := by
  induction places generalizing op failed with
  | nil =>
    obtain rfl := Option.some.inj hfollow
    simpa [looks] using h
  | cons place places ih =>
    rw [Operation.follow] at hfollow
    by_cases hplace : place < op.outstanding.length
    · rw [if_pos hplace] at hfollow
      have hrest := ih (h.step hplace htally hsearching) (htally.step hplace)
        (hsearching.step hplace) hfollow
      rwa [List.append_assoc, ← List.filterMap_append] at hrest
    · rw [if_neg hplace] at hfollow
      cases hfollow

/-- Some part is open as long as something is outstanding. -/
theorem Searching.openParts_pos (h : op.Searching reader) (htally : op.Tally none)
    {place : Nat} (hplace : place < op.outstanding.length) : 0 < op.openParts.value := by
  obtain ⟨-, found, hfound, -⟩ := h.branches _ (List.getElem_mem hplace)
  rw [searched, List.getElem?_map, Option.map_eq_some_iff] at hfound
  obtain ⟨part, hpart, -⟩ := hfound
  exact (htally.without hplace).openParts_pos hpart

theorem Steps.openParts_ne_zero
    (h : (start id registered text pieces).Steps reader listener steps op)
    (houtstanding : op.outstanding ≠ []) : op.openParts.value ≠ 0 := by
  have := h.searching.openParts_pos h.tally (List.length_pos_iff.2 houtstanding)
  omega

/-- The branch that is looked at next can be counted off. -/
theorem done_of_place {place : Nat} {part : PartState} (hplace : place < op.outstanding.length)
    (htally : op.Tally none) (hpart : op.parts[op.outstanding[place].1]? = some part) :
    (part.pending.add
      (op.outstanding[place].2.explore reader part.text).children.length).done =
        .ok ⟨(op.step reader listener place).waiting op.outstanding[place].1⟩ := by
  have hpending := (htally.without hplace).pending _ part hpart
  simp only [if_true] at hpending
  have hfound : (op.without place).searched[op.outstanding[place].1]? =
      some (part.text, part.progress) := by
    rw [searched_without, searched, List.getElem?_map, hpart]
    rfl
  rw [step_eq_visit hplace]
  obtain ⟨-, houtstanding⟩ := @searched_visit reader listener (op.without place)
    op.outstanding[place].1 op.outstanding[place].2 _ hfound
  have hwaiting : ((op.without place).visit reader listener op.outstanding[place].1
      op.outstanding[place].2).waiting op.outstanding[place].1 =
        (op.without place).waiting op.outstanding[place].1 +
          (op.outstanding[place].2.explore reader part.text).children.length := by
    simp [waiting, houtstanding, List.countP_append, List.countP_map, Function.comp_def]
  rw [hwaiting, Counter.add, Counter.done, if_neg (by simp only; omega), Except.ok.injEq,
    Counter.mk.injEq]
  push_cast
  omega

theorem Steps.orderly (h : (start id registered text pieces).Steps reader listener steps op)
    {looked : List (Nat × Exploration)}
    (hreported : op.Accounted listener id registered (looked.filterMap failed?)) :
    op.Orderly reader listener id registered text pieces looked where
  texts := by simpa [searched, Function.comp_def] using h.texts
  pending := fun i part hpart => by simpa using h.tally.pending i part hpart
  openParts := h.tally.openParts
  done := by
    intro place hplace
    obtain ⟨-, found, hfound, -⟩ := h.searching.branches _ (List.getElem_mem hplace)
    rw [searched, List.getElem?_map, Option.map_eq_some_iff] at hfound
    obtain ⟨part, hpart, -⟩ := hfound
    have hpos := h.searching.openParts_pos h.tally hplace
    refine ⟨part, hpart, done_of_place hplace h.tally hpart, ?_⟩
    rw [Counter.done, if_neg (by omega)]
  senders := hreported.told.senders
  failedLooks := hreported.told.failedLooks
  indices := by
    have hlength : op.parts.length = pieces.length := by
      simpa [searched] using congrArg List.length h.texts
    rw [← hlength]
    exact hreported.told.indices
  reports := by
    intro i part hpart
    have hpending := h.tally.pending i part hpart
    simp only [reduceCtorEq, if_false, Nat.add_zero] at hpending
    rw [hreported.told.parts i part hpart, report?, hpending]
    split <;> split <;> simp_all
  failure := hreported.told.failure
  running := by
    intro houtstanding
    obtain ⟨hregistered, hresult, huntold⟩ := hreported.running (h.openParts_ne_zero houtstanding)
    exact ⟨hregistered, hresult, huntold⟩
  finished := by
    intro hdone
    obtain ⟨hregistered, hresult, before, hnotices, huntold⟩ :=
      hreported.finished (h.openParts_eq_zero hdone)
    rw [h.selections_eq hdone] at hresult hnotices
    exact ⟨hregistered, ⟨before, huntold, hnotices⟩, hresult⟩

/-- What is known of an operation on at least one piece, after the looks at the given places. -/
theorem orderly_of_follow (hpieces : pieces ≠ [])
    (hfollow : (start id registered text pieces).follow reader listener places = some op) :
    op.Orderly reader listener id registered text pieces
      ((start id registered text pieces).looks reader listener places) := by
  refine (steps_of_follow hfollow).orderly ?_
  exact (accounted_start listener id registered text hpieces).follow
    (tally_start id registered text pieces) (searching_start id registered text pieces) hfollow

/-- An operation that has ended has left the register as it was, even if it has failed. -/
theorem registered_submit (reader : Reader) (listener : Listener) (id : Nat)
    (registered : List Nat) (text : String) (several : Bool) :
    (reader.submit listener id registered text several).registered = registered := by
  obtain ⟨⟨steps, hrun⟩, hdone⟩ := @steps_run reader listener (start id registered text
    (if several then reader.locale.split text else [Text.strip text.toList]))
  obtain ⟨places, hfollow⟩ := hrun.follow
  exact ((orderly_of_follow (reader.locale.pieces_ne_nil text several) hfollow).finished hdone).1

/-- In whatever order the branches of an input are looked at, and whatever looks and whatever
reports fail, the operation comes to its end, and at every moment its counters agree with what is
outstanding and it has reported what is done, each thing once. -/
theorem submit_orderly (reader : Reader) (listener : Listener) (id : Nat) (registered : List Nat)
    (text : String) (several : Bool) :
    let pieces := if several then reader.locale.split text else [Text.strip text.toList]
    let first := start id registered text pieces
    let last := reader.submit listener id registered text several
    (∃ places, first.follow reader listener places = some last) ∧ last.outstanding = [] ∧
      ∀ places op, first.follow reader listener places = some op →
        places.length ≤ first.weight ∧ op.Orderly reader listener id registered text pieces
          (first.looks reader listener places) := by
  intro pieces first last
  have hpieces : pieces ≠ [] := reader.locale.pieces_ne_nil text several
  obtain ⟨⟨steps, hrun⟩, hdone⟩ := @steps_run reader listener first
  refine ⟨hrun.follow, hdone, fun places op hfollow => ⟨?_, orderly_of_follow hpieces hfollow⟩⟩
  have := (steps_of_follow hfollow).le_weight
  omega

/-- The second part of "on ſunday; tomorrow at 9" can be looked at to its end first, and a listener
fails who hears of it. The look at the first part fails after that, and so does the listener to the
end, but what counts is that the listener failed first. Everything is reported just once. -/
theorem submit_orderly_boom :
    let reader : Reader := ⟨.english, ⟨⟨2024, 1, 3, by decide⟩, 9, 30, 0, 0⟩, .midnight⟩
    let listener : Listener := ⟨fun _ selection =>
      if selection.index = 1 then some (.callback "boom") else none, fun _ _ => some .noSchedule⟩
    let text := "on ſunday; tomorrow at 9"
    let first := start 7 [3] text (reader.locale.split text)
    ∃ op, first.follow reader listener [1, 1, 1, 0] = some op ∧ op.outstanding = [] ∧
      op.failure = some (.callback "boom") ∧
      op.notices.filterMap Notice.failedLook? = [(0, .unknownWord "ſunday")] ∧
      op.Orderly reader listener 7 [3] text (reader.locale.split text)
        (first.looks reader listener [1, 1, 1, 0]) := by
  intro reader listener text first
  have hfollow : ((first.follow reader listener [1, 1, 1, 0]).any fun op =>
      op.outstanding.isEmpty && op.failure = some (.callback "boom") &&
        op.notices.filterMap Notice.failedLook? = [(0, .unknownWord "ſunday")]) = true := by
    decide +kernel
  obtain ⟨op, hop, hends⟩ := (Option.any_eq_true _ _).1 hfollow
  simp only [Bool.and_eq_true, List.isEmpty_iff, decide_eq_true_eq] at hends
  obtain ⟨⟨hdone, hfailure⟩, hfailed⟩ := hends
  exact ⟨op, hop, hdone, hfailure, hfailed,
    ((submit_orderly reader listener 7 [3] text true).2.2 _ op hop).2⟩

end Orderly

end Operation

end TimePhrase
