import TimePhrase.Proofs.Reading.Reached
import TimePhrase.Proofs.Reading.Tally

/-!
# Several texts in turn

A run takes the branches of all its parts in turn. Those of one part are then taken in turn too,
as if the part were alone, so that each part comes to what it comes to by itself, and a run fails
with the failure of one of its parts.
-/

namespace TimePhrase

/-- The first failure among looks at some branches. -/
def firstFailure (reader : Reader) (text : List Char) (looked : List Branch) : Option Failure :=
  looked.findSome? fun branch => (branch.explore reader text).failure

namespace Reader

variable {reader : Reader} {text : List Char}

/-- What is found out about a text that is searched alone. -/
def progressOf (reader : Reader) (text : List Char) : Progress :=
  .after reader text (Branch.inTurn reader text [.start text])

/-- The failure of a search through a text alone. -/
def failureOf (reader : Reader) (text : List Char) : Option Failure :=
  firstFailure reader text (Branch.inTurn reader text [.start text])

theorem failureOf_eq_none_iff : reader.failureOf text = none ↔ reader.Answers text := by
  have hperm := Branch.inTurn_perm reader text [.start text]
  rw [List.flatMap_singleton] at hperm
  rw [failureOf, firstFailure, List.findSome?_eq_none_iff, answers_iff]
  constructor
  · intro h branch hbranch
    exact h branch (hperm.mem_iff.2 hbranch)
  · intro h branch hbranch
    exact h branch (hperm.mem_iff.1 hbranch)

end Reader

namespace Operation

variable {reader : Reader} {listener : Listener} {op : Operation}

/-- What a look at the branch that has waited longest preserves holds after a run. -/
theorem run_induct {P : Operation → Prop}
    (hstep : ∀ op, 0 < op.outstanding.length → P op → P (op.step reader listener 0)) (h : P op) :
    P (op.run reader listener) := by
  fun_induction op.run reader listener with
  | case1 op hdone => exact h
  | case2 op index branch others hwaiting _ ih =>
    apply ih
    have hplace : 0 < op.outstanding.length := by simp [hwaiting]
    have hnext := hstep op hplace h
    rw [step_eq_visit hplace] at hnext
    simpa [hwaiting, without] using hnext

/-- The branches of each part are looked at in turn. -/
structure TakesTurns (reader : Reader) (pieces : List (List Char)) (op : Operation) : Prop where
  parts : ∀ i piece, pieces[i]? = some piece → ∃ looked,
    op.searched[i]? = some (piece, .after reader piece looked) ∧
      looked ++ Branch.inTurn reader piece (op.queue i) =
        Branch.inTurn reader piece [.start piece] ∧
      (op.failure = none → firstFailure reader piece looked = none)
  failure : ∀ failure, op.failure = some failure → ∃ piece ∈ pieces,
    reader.failureOf piece = some failure

theorem takesTurns_start (reader : Reader) (id : Nat) (registered : List Nat) (text : String)
    (pieces : List (List Char)) : (start id registered text pieces).TakesTurns reader pieces := by
  refine ⟨fun i piece hpiece => ⟨[], ?_, ?_, fun _ => rfl⟩, fun failure hfailure => ?_⟩
  · rw [searched_start, List.getElem?_map, hpiece]
    rfl
  · rw [queue_start id registered text hpiece, List.nil_append]
  · cases hfailure

/-- The branch that is taken first is the first of its part. -/
theorem queue_eq (hplace : 0 < op.outstanding.length) (j : Nat) :
    op.queue j = (if op.outstanding[0].1 = j then [op.outstanding[0].2] else []) ++
      (op.without 0).queue j := by
  have hcons : op.outstanding = op.outstanding[0] :: op.outstanding.eraseIdx 0 := by
    rw [List.eraseIdx_zero, List.getElem_zero, List.cons_head_tail]
  refine (congrArg (fun waiting => (waiting.filter (·.1 = j)).map (·.2)) hcons).trans ?_
  rw [queue, without, List.filter_cons]
  by_cases hj : op.outstanding[0].1 = j
  · simp [hj]
  · simp [hj]

theorem firstFailure_concat (reader : Reader) (text : List Char) (looked : List Branch)
    (branch : Branch) : firstFailure reader text (looked ++ [branch]) =
      (firstFailure reader text looked).or (branch.explore reader text).failure := by
  simp [firstFailure, List.findSome?_append]

theorem TakesTurns.step {pieces : List (List Char)} (hplace : 0 < op.outstanding.length)
    (hsearching : op.Searching reader) (htexts : op.searched.map (·.1) = pieces)
    (h : op.TakesTurns reader pieces) : (op.step reader .silent 0).TakesTurns reader pieces := by
  obtain ⟨-, found, hfound, -⟩ := hsearching.branches _ (List.getElem_mem hplace)
  have hfailure := @failure_step_eq reader op 0 hplace found hfound
  have hpiece : pieces[op.outstanding[0].1]? = some found.1 := by
    rw [← htexts, List.getElem?_map, hfound]
    rfl
  constructor
  · intro j piece hj
    obtain ⟨looked, hlooked, hturns, hnone⟩ := h.parts j piece hj
    obtain ⟨hsearched, hqueue⟩ := @searched_step reader .silent op 0 j hplace _ hlooked
    rw [hsearched, hqueue, hfailure, Option.or_eq_none_iff]
    rw [queue_eq hplace j] at hturns
    by_cases hij : op.outstanding[0].1 = j
    · obtain rfl : found.1 = piece := by
        rw [hij, hj] at hpiece
        exact (Option.some.inj hpiece).symm
      -- the branch moves from the front of the queue to those looked at, its children to the end
      simp only [if_pos hij, List.singleton_append, Branch.inTurn] at hturns ⊢
      refine ⟨looked ++ [op.outstanding[0].2], by rw [Progress.after_concat], ?_, ?_⟩
      · rw [List.append_assoc]
        exact hturns
      · rintro ⟨hbefore, hlook⟩
        rw [firstFailure_concat, hnone hbefore, hlook]
        rfl
    · simp only [if_neg hij, List.nil_append, List.append_nil] at hturns ⊢
      exact ⟨looked, rfl, hturns, fun hnow => hnone hnow.1⟩
  · intro failure hnow
    rw [hfailure] at hnow
    cases hbefore : op.failure with
    | some before =>
      rw [hbefore] at hnow
      exact h.failure failure (hbefore.trans hnow)
    | none =>
      -- this look is the first to fail, and so it is among those at its own text
      rw [hbefore, Option.none_or] at hnow
      obtain ⟨looked, hlooked, hturns, hnone⟩ := h.parts _ _ hpiece
      rw [queue_eq hplace, if_pos rfl, List.singleton_append, Branch.inTurn] at hturns
      refine ⟨found.1, List.mem_of_getElem? hpiece, ?_⟩
      rw [Reader.failureOf, ← hturns, firstFailure, List.findSome?_append, List.findSome?_cons,
        hnow]
      exact congrArg (Option.or · (some failure)) (hnone hbefore)

/-- When nothing is outstanding, the search through each text is over. -/
theorem TakesTurns.of_done {pieces : List (List Char)} {i : Nat} {piece : List Char}
    (h : op.TakesTurns reader pieces) (hdone : op.outstanding = [])
    (hpiece : pieces[i]? = some piece) :
    op.searched[i]? = some (piece, reader.progressOf piece) ∧
      (op.failure = none → reader.failureOf piece = none) := by
  obtain ⟨looked, hlooked, hturns, hnone⟩ := h.parts i piece hpiece
  have hqueue : op.queue i = [] := by
    rw [queue, hdone]
    rfl
  rw [hqueue, Branch.inTurn, List.append_nil] at hturns
  rw [hturns] at hlooked hnone
  exact ⟨hlooked, hnone⟩

section Run

variable (reader : Reader) (id : Nat) (registered : List Nat) (text : String)
  (pieces : List (List Char))

theorem takesTurns_run :
    ((start id registered text pieces).run reader .silent).TakesTurns reader pieces := by
  have hall : ∀ op : Operation, 0 < op.outstanding.length →
      op.Searching reader ∧ op.searched.map (·.1) = pieces ∧ op.TakesTurns reader pieces →
      (op.step reader .silent 0).Searching reader ∧
        (op.step reader .silent 0).searched.map (·.1) = pieces ∧
        (op.step reader .silent 0).TakesTurns reader pieces := by
    rintro op hplace ⟨hsearching, htexts, hturns⟩
    exact ⟨hsearching.step hplace, (texts_step 0).trans htexts,
      hturns.step hplace hsearching htexts⟩
  have hstart : (start id registered text pieces).searched.map (·.1) = pieces := by
    simp [searched_start, Function.comp_def]
  exact (run_induct hall ⟨searching_start id registered text pieces, hstart,
    takesTurns_start reader id registered text pieces⟩).2.2

/-- After a run it is known of every text what is found out about it alone. -/
theorem searched_run : ((start id registered text pieces).run reader .silent).searched =
    pieces.map fun piece => (piece, reader.progressOf piece) := by
  obtain ⟨⟨steps, hsteps⟩, hdone⟩ :=
    @steps_run reader .silent (start id registered text pieces)
  have hturns := takesTurns_run reader id registered text pieces
  generalize (start id registered text pieces).run reader .silent = op at hsteps hdone hturns
  refine List.ext_getElem? fun i => ?_
  rw [List.getElem?_map]
  cases hpiece : pieces[i]? with
  | none =>
    have htexts := congrArg (·[i]?) hsteps.texts
    simpa [hpiece] using htexts
  | some piece => exact (hturns.of_done hdone hpiece).1

/-- A run fails if, and only if, the search through some text fails alone, and with the failure of
such a text. -/
theorem failure_run : let op := (start id registered text pieces).run reader .silent
    (op.failure = none ↔ ∀ piece ∈ pieces, reader.failureOf piece = none) ∧
      ∀ failure, op.failure = some failure →
        ∃ piece ∈ pieces, reader.failureOf piece = some failure := by
  intro op
  have hturns := takesTurns_run reader id registered text pieces
  obtain ⟨-, hdone⟩ := @steps_run reader .silent (start id registered text pieces)
  refine ⟨⟨fun hnone piece hpiece => ?_, fun hall => ?_⟩, hturns.failure⟩
  · obtain ⟨i, hi⟩ := List.mem_iff_getElem?.1 hpiece
    exact (hturns.of_done hdone hi).2 hnone
  · cases hfailure : op.failure with
    | none => rfl
    | some failure =>
      obtain ⟨piece, hpiece, hfails⟩ := hturns.failure failure hfailure
      rw [hall piece hpiece] at hfails
      cases hfails

end Run

end Operation

end TimePhrase
