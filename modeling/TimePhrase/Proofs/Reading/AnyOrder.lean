import TimePhrase.Proofs.Reading.Reached
import TimePhrase.Proofs.Reading.Tally

/-!
# The outcome of any order

Two looks at branches can change places. What has been found out afterwards is the same but for
the order of the readings and the choice among faults that lie equally far into the text. In
whatever order the branches of a text are taken, the same ones are looked at in the end, so that
all orders have the same outcome.
-/

namespace TimePhrase

namespace Progress

variable {p q : Progress}

/-- How far into the text the fault lies that counts. -/
def rejectedAt (p : Progress) : Option Nat := p.rejection.map (·.2)

/-- How far into the text the faults lie once another one is known. -/
def further (known : Option Nat) (offset : Nat) : Option Nat := some (max (known.getD 0) offset)

theorem rejectedAt_reject (p : Progress) (error : ExpressionError) (offset : Nat) :
    (p.reject error offset).rejectedAt = further p.rejectedAt offset := by
  unfold reject rejectedAt further
  cases hrejection : p.rejection with
  | none => simp
  | some known =>
    by_cases hfurther : known.2 < offset
    · simp only [if_pos hfurther, Option.map_some, Option.getD_some, Option.some.injEq]
      omega
    · simp only [if_neg hfurther, hrejection, Option.map_some, Option.getD_some,
        Option.some.injEq]
      omega

theorem stuckAt_reject (p : Progress) (error : ExpressionError) (offset : Nat) :
    (p.reject error offset).stuckAt = p.stuckAt := by
  unfold reject
  split
  · split <;> rfl
  · rfl

theorem rejectedAt_add (p : Progress) (e : Exploration) :
    (p.add e).rejectedAt = (e.rejections.map (·.2)).foldl further p.rejectedAt := by
  change (e.rejections.foldl (fun p rejection => p.reject rejection.1 rejection.2) p).rejectedAt = _
  generalize e.rejections = rejections
  induction rejections generalizing p with
  | nil => rfl
  | cons rejection rest ih =>
    rw [List.foldl_cons, ih, rejectedAt_reject, List.map_cons, List.foldl_cons]

theorem stuckAt_add (p : Progress) (e : Exploration) :
    (p.add e).stuckAt = max p.stuckAt (e.stuck.getD 0) := by
  have hfold (rejections : List (ExpressionError × Nat)) :
      (rejections.foldl (fun p rejection => p.reject rejection.1 rejection.2) p).stuckAt =
        p.stuckAt := by
    induction rejections generalizing p with
    | nil => rfl
    | cons rejection rest ih => exact (ih _).trans (stuckAt_reject _ _ _)
  exact congrArg (max · _) (hfold e.rejections)

/-- The same has been found out, up to the order of the readings and the choice among faults that
lie equally far into the text. -/
structure Alike (p q : Progress) : Prop where
  readings : p.readings.Perm q.readings
  stuckAt : p.stuckAt = q.stuckAt
  rejectedAt : p.rejectedAt = q.rejectedAt

theorem Alike.refl (p : Progress) : p.Alike p := ⟨.refl _, rfl, rfl⟩

theorem Alike.trans {r : Progress} (h : p.Alike q) (h' : q.Alike r) : p.Alike r :=
  ⟨h.readings.trans h'.readings, h.stuckAt.trans h'.stuckAt, h.rejectedAt.trans h'.rejectedAt⟩

theorem Alike.add (h : p.Alike q) (e : Exploration) : (p.add e).Alike (q.add e) := by
  constructor
  · rw [readings_add, readings_add]
    exact h.readings.append_right _
  · rw [stuckAt_add, stuckAt_add, h.stuckAt]
  · rw [rejectedAt_add, rejectedAt_add, h.rejectedAt]

theorem Alike.foldl_add (h : p.Alike q) (found : List Exploration) :
    (found.foldl Progress.add p).Alike (found.foldl Progress.add q) := by
  induction found generalizing p q with
  | nil => exact h
  | cons e rest ih => exact ih (h.add e)

/-- Two looks can change places. -/
theorem add_add_alike (p : Progress) (e f : Exploration) :
    ((p.add e).add f).Alike ((p.add f).add e) := by
  constructor
  · simp only [readings_add, List.append_assoc]
    exact List.perm_append_comm.append_left _
  · simp only [stuckAt_add]
    omega
  · have hcomm (known : Option Nat) (a b : Nat) :
        further (further known a) b = further (further known b) a := by
      simp only [further, Option.getD_some, Option.some.injEq]
      omega
    simp only [rejectedAt_add, ← List.foldl_append]
    exact List.perm_append_comm.foldl_eq' (fun a _ b _ known => hcomm known a b) _

/-- Any number of looks can change places. -/
theorem foldl_add_alike {found others : List Exploration} (h : found.Perm others) (p : Progress) :
    (found.foldl add p).Alike (others.foldl add p) := by
  induction h generalizing p with
  | nil => exact .refl p
  | cons e _ ih => exact ih (p.add e)
  | swap e f rest => exact (add_add_alike p f e).foldl_add rest
  | trans _ _ ih ih' => exact (ih p).trans (ih' p)

/-- The outcomes of two searches through a text name the same readings, or say that it cannot be
understood from the same place on, or give faults that lie equally far into it. -/
def OutcomesAlike (text : String) (p q : Progress)
    (outcome other : Except ExpressionError (List Term)) : Prop :=
  (∃ readings others, outcome = .ok readings ∧ other = .ok others ∧ readings.Perm others) ∨
  (∃ offset : Nat, outcome = .error (.unparsable text offset) ∧
    other = .error (.unparsable text offset)) ∨
  ∃ error fault offset, p.rejection = some (error, offset) ∧ q.rejection = some (fault, offset) ∧
    outcome = .error error ∧ other = .error fault

theorem Alike.readings_eq_nil_iff (h : p.Alike q) : p.readings = [] ↔ q.readings = [] := by
  rw [← List.length_eq_zero_iff, ← List.length_eq_zero_iff, h.readings.length_eq]

/-- From the same findings the outcomes are alike. -/
theorem Alike.outcome (h : p.Alike q) (text : List Char) :
    OutcomesAlike (String.ofList text) p q (p.outcome text) (q.outcome text) := by
  rw [outcome_eq, outcome_eq]
  by_cases hreadings : p.readings = []
  · rw [if_pos hreadings, if_pos (h.readings_eq_nil_iff.1 hreadings), fault, fault, ← h.stuckAt]
    have hrejectedAt : p.rejection.map (·.2) = q.rejection.map (·.2) := h.rejectedAt
    right
    cases hp : p.rejection with
    | none =>
      rw [hp, Option.map_none, eq_comm, Option.map_eq_none_iff] at hrejectedAt
      rw [hrejectedAt]
      exact Or.inl ⟨p.stuckAt, rfl, rfl⟩
    | some known =>
      obtain ⟨error, offset⟩ := known
      rw [hp, Option.map_some, eq_comm, Option.map_eq_some_iff] at hrejectedAt
      obtain ⟨⟨other, offset'⟩, hq, rfl⟩ := hrejectedAt
      rw [hq]
      by_cases hstuck : p.stuckAt ≤ offset'
      · simp only [if_pos hstuck]
        exact Or.inr ⟨error, other, offset', rfl, rfl, rfl, rfl⟩
      · simp only [if_neg hstuck]
        exact Or.inl ⟨p.stuckAt, rfl, rfl⟩
  · rw [if_neg hreadings, if_neg (mt h.readings_eq_nil_iff.2 hreadings)]
    exact Or.inl ⟨p.readings, q.readings, rfl, rfl, h.readings⟩

end Progress

/-- Both parts have been reported, with outcomes that are alike. -/
def PartState.ReportedAlike (part other : PartState) : Prop :=
  ∃ s t, part.selection = some s ∧ other.selection = some t ∧ s.index = t.index ∧
    s.text = t.text ∧
    Progress.OutcomesAlike s.text part.progress other.progress s.outcome t.outcome

namespace Operation

variable {reader : Reader} {listener listener' : Listener} {op op' : Operation}

/-- Of the branches that the text of a part leads to, some have been looked at, and the others
follow from the outstanding ones. -/
def Explored (reader : Reader) (pieces : List (List Char)) (op : Operation) : Prop :=
  ∀ i piece, pieces[i]? = some piece → ∃ looked,
    op.searched[i]? = some (piece, .after reader piece looked) ∧
      (looked ++ (op.queue i).flatMap (Branch.reached reader piece)).Perm
        ((Branch.start piece).reached reader piece)

theorem explored_start (reader : Reader) (id : Nat) (registered : List Nat) (text : String)
    (pieces : List (List Char)) : (start id registered text pieces).Explored reader pieces := by
  intro i piece hpiece
  refine ⟨[], ?_, ?_⟩
  · rw [searched_start, List.getElem?_map, hpiece]
    rfl
  · rw [queue_start id registered text hpiece, List.flatMap_singleton, List.nil_append]

/-- A look at any outstanding branch keeps the branches that a text leads to. -/
theorem Explored.step {pieces : List (List Char)} {place : Nat}
    (hplace : place < op.outstanding.length) (h : op.Explored reader pieces) :
    (op.step reader listener place).Explored reader pieces := by
  intro j piece hpiece
  obtain ⟨looked, hfound, hperm⟩ := h j piece hpiece
  obtain ⟨hsearched, hqueue⟩ := @searched_step reader listener op place j hplace _ hfound
  have hwaiting := (queue_perm hplace j).flatMap_right (Branch.reached reader piece)
  have hbefore := (hwaiting.append_left looked).symm.trans hperm
  rw [hsearched, hqueue]
  by_cases hj : op.outstanding[place].1 = j
  · rw [if_pos hj] at hbefore
    simp only [if_pos hj]
    generalize op.outstanding[place].2 = branch at hbefore ⊢
    refine ⟨looked ++ [branch], by rw [Progress.after_concat], ?_⟩
    rw [List.flatMap_append, List.flatMap_singleton, Branch.reached_eq] at hbefore
    rw [List.flatMap_append, List.append_assoc, List.singleton_append]
    exact ((List.perm_append_comm.cons branch).append_left looked).trans hbefore
  · rw [if_neg hj] at hbefore
    simp only [if_neg hj, List.append_nil]
    exact ⟨looked, rfl, hbefore⟩

theorem Steps.explored {steps id : Nat} {registered : List Nat} {text : String}
    {pieces : List (List Char)}
    (h : (start id registered text pieces).Steps reader listener steps op) :
    op.Explored reader pieces :=
  h.induct (fun _ _ hplace => Explored.step hplace)
    (explored_start reader id registered text pieces)

/-- In the end just the branches have been looked at that the text of a part leads to. -/
theorem Explored.progress_eq {pieces : List (List Char)} {i : Nat} {part : PartState}
    (h : op.Explored reader pieces) (htexts : op.searched.map (·.1) = pieces)
    (hdone : op.outstanding = []) (hpart : op.parts[i]? = some part) :
    ∃ looked, part.progress = .after reader part.text looked ∧
      looked.Perm ((Branch.start part.text).reached reader part.text) := by
  have hpiece : pieces[i]? = some part.text := by
    rw [← htexts]
    simp [searched, hpart]
  obtain ⟨looked, hfound, hperm⟩ := h i part.text hpiece
  refine ⟨looked, ?_, ?_⟩
  · simpa [searched, hpart] using hfound
  · simpa [queue, hdone] using hperm

/-- Whatever outstanding branch is taken next each time, and whoever listens, the outcome is the
same when nothing is left: every part has the same readings, its faults lie equally far into its
text, and it is reported alike. -/
theorem alike_of_steps {steps steps' id : Nat} {registered : List Nat} {text : String}
    {pieces : List (List Char)}
    (h : (start id registered text pieces).Steps reader listener steps op)
    (h' : (start id registered text pieces).Steps reader listener' steps' op')
    (hdone : op.outstanding = []) (hdone' : op'.outstanding = []) :
    List.Forall₂ (fun part other => part.text = other.text ∧
      part.progress.Alike other.progress ∧ part.ReportedAlike other) op.parts op'.parts := by
  have htexts : op.parts.map PartState.text = op'.parts.map PartState.text := by
    simpa [searched, Function.comp_def] using h.texts.trans h'.texts.symm
  have hlength : op.parts.length = op'.parts.length := by
    simpa using congrArg List.length htexts
  refine List.forall₂_iff_get.2 ⟨hlength, fun i hi hi' => ?_⟩
  generalize hpart : op.parts.get ⟨i, hi⟩ = part
  generalize hother : op'.parts.get ⟨i, hi'⟩ = other
  replace hpart : op.parts[i]? = some part := List.getElem?_eq_some_iff.2 ⟨hi, hpart⟩
  replace hother : op'.parts[i]? = some other := List.getElem?_eq_some_iff.2 ⟨hi', hother⟩
  have htext : part.text = other.text := by
    simpa [hpart, hother] using congrArg (·[i]?) htexts
  obtain ⟨looked, hprogress, hlooked⟩ := h.explored.progress_eq h.texts hdone hpart
  obtain ⟨looked', hprogress', hlooked'⟩ := h'.explored.progress_eq h'.texts hdone' hother
  rw [← htext] at hprogress' hlooked'
  have halike : part.progress.Alike other.progress := by
    rw [hprogress, hprogress']
    exact Progress.foldl_add_alike ((hlooked.trans hlooked'.symm).map _) .none
  refine ⟨htext, halike, _, _, (h.selection_eq hdone hpart).2, (h'.selection_eq hdone' hother).2,
    rfl, congrArg String.ofList htext, ?_⟩
  simpa [findings, htext] using halike.outcome part.text

/-- The state after looks at the outstanding branches in the given places, if there are such. -/
def follow (reader : Reader) (listener : Listener) (op : Operation) : List Nat → Option Operation
  | [] => some op
  | place :: places =>
    if place < op.outstanding.length then
      (op.step reader listener place).follow reader listener places
    else none

theorem steps_of_follow {places : List Nat} (h : op.follow reader listener places = some op') :
    op.Steps reader listener places.length op' := by
  induction places generalizing op with
  | nil =>
    obtain rfl := Option.some.inj h
    exact .done op
  | cons place places ih =>
    rw [follow] at h
    by_cases hplace : place < op.outstanding.length
    · rw [if_pos hplace] at h
      exact .step place hplace (ih h)
    · rw [if_neg hplace] at h
      cases h

/-- The branches of "5 2025 Monday" can be taken in two orders that lead to different faults. The
outcome is the same all the same, the faults lying equally far into the text. -/
theorem alike_of_steps_mondayTheFifth :
    let reader : Reader := ⟨.english, ⟨⟨2024, 1, 3, by decide⟩, 9, 30, 0, 0⟩, .midnight⟩
    let text := "5 2025 Monday"
    let op := start 0 [] text [text.toList]
    ∃ first second, op.Steps reader .silent 5 first ∧ op.Steps reader .silent 5 second ∧
      first.outstanding = [] ∧ second.outstanding = [] ∧
      first.selections.errors ≠ second.selections.errors ∧
      List.Forall₂ (fun part other => part.text = other.text ∧
        part.progress.Alike other.progress ∧ part.ReportedAlike other)
        first.parts second.parts := by
  intro reader text op
  have hfollow : ((op.follow reader .silent [0, 0, 0, 0, 0]).any fun first =>
      (op.follow reader .silent [0, 1, 1, 0, 0]).any fun second =>
        first.outstanding.isEmpty && second.outstanding.isEmpty &&
          first.selections.errors ≠ second.selections.errors) = true := by decide +kernel
  obtain ⟨first, hfirst, hfollow⟩ := (Option.any_eq_true _ _).1 hfollow
  obtain ⟨second, hsecond, hends⟩ := (Option.any_eq_true _ _).1 hfollow
  simp only [Bool.and_eq_true, List.isEmpty_iff, decide_eq_true_eq] at hends
  obtain ⟨⟨hdone, hdone'⟩, hdiffer⟩ := hends
  have hsteps := steps_of_follow hfirst
  have hsteps' := steps_of_follow hsecond
  exact ⟨first, second, hsteps, hsteps', hdone, hdone', hdiffer,
    alike_of_steps hsteps hsteps' hdone hdone'⟩

end Operation

end TimePhrase
