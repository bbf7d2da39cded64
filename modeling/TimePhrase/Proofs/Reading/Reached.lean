import TimePhrase.Proofs.Reading.Steps

/-!
# The branches that a text leads to

Which branches are looked at on the way through a text does not depend on the order in which they
are taken. They are counted here twice. `Branch.reached` follows one branch after the other to its
end. `Branch.inTurn` puts new branches behind those that wait already, as a run does.
-/

namespace TimePhrase

namespace Branch

variable {reader : Reader} {text : List Char} {branch child : Branch}

theorem length_of_mem_explore (h : child ∈ (branch.explore reader text).children) :
    child.rest.length < branch.rest.length := by
  unfold explore at h
  split at h
  · split at h <;> exact absurd h List.not_mem_nil
  · exact length_of_mem_exploreKinds h

/-- The branches that a branch leads to, itself first. -/
def reached (reader : Reader) (text : List Char) (branch : Branch) : List Branch :=
  branch :: (branch.explore reader text).children.attach.flatMap fun child =>
    child.1.reached reader text
termination_by branch.rest.length
decreasing_by exact length_of_mem_explore child.2

theorem reached_eq (reader : Reader) (text : List Char) (branch : Branch) :
    branch.reached reader text =
      branch :: (branch.explore reader text).children.flatMap (reached reader text) := by
  rw [reached, List.flatMap_subtype (g := reached reader text) (fun _ _ => rfl),
    List.unattach_attach]

/-- What passes on to the branches that a branch goes on with holds of all that are reached. -/
theorem reached_induct {P : Branch → Prop}
    (hstep : ∀ branch, P branch → ∀ child ∈ (branch.explore reader text).children, P child)
    (h : P branch) : ∀ other ∈ branch.reached reader text, P other := by
  induction hlength : branch.rest.length using Nat.strongRecOn generalizing branch with
  | ind length ih =>
    intro other hother
    rw [reached_eq] at hother
    rcases List.mem_cons.1 hother with rfl | hother
    · exact h
    · obtain ⟨child, hchild, hother⟩ := List.mem_flatMap.1 hother
      have hshorter : child.rest.length < length := hlength ▸ length_of_mem_explore hchild
      exact ih _ hshorter (hstep branch h child hchild) rfl other hother

/-- The branches that are reached are in range and have an end of the text left to read. -/
theorem of_mem_reached (h : branch ∈ (start text).reached reader text) :
    branch.InRange ∧ branch.rest <:+ text := by
  refine reached_induct (P := fun branch => branch.InRange ∧ branch.rest <:+ text) ?_
    ⟨inRange_start text, List.suffix_refl text⟩ branch h
  rintro branch ⟨hrange, hrest⟩ child hchild
  obtain ⟨hinRange, hsuffix⟩ := hrange.of_mem_explore hchild
  exact ⟨hinRange, hsuffix.trans hrest⟩

/-- The branches that several branches lead to, in the order in which they are looked at when each
waits until those before it are done. -/
def inTurn (reader : Reader) (text : List Char) : List Branch → List Branch
  | [] => []
  | branch :: others =>
    branch :: inTurn reader text (others ++ (branch.explore reader text).children)
termination_by branches => totalWeight branches
decreasing_by
  have := branch.totalWeight_children_lt reader text
  simp only [totalWeight_append, totalWeight]
  omega

/-- In turn the same branches are looked at as one after the other. -/
theorem inTurn_perm (reader : Reader) (text : List Char) (branches : List Branch) :
    (inTurn reader text branches).Perm (branches.flatMap (reached reader text)) := by
  fun_induction inTurn reader text branches with
  | case1 => exact .nil
  | case2 branch others ih =>
    rw [List.flatMap_append] at ih
    rw [List.flatMap_cons, reached_eq]
    exact (ih.trans List.perm_append_comm).cons branch

end Branch

namespace Reader

/-- No recognizer fails on the way through a text. At the end of the text none is asked. -/
def Answers (reader : Reader) (text : List Char) : Prop :=
  ∀ branch ∈ (Branch.start text).reached reader text, branch.rest ≠ [] →
    ∀ kind, ∃ answer, Recognizer.ofKind kind reader.locale.grammar branch.rest = .ok answer

variable {reader : Reader} {text : List Char}

/-- The recognizers fail on no way through a text if, and only if, every look at a branch comes to
its end. -/
theorem answers_iff : reader.Answers text ↔
    ∀ branch ∈ (Branch.start text).reached reader text,
      (branch.explore reader text).failure = none :=
  forall₂_congr fun _ hbranch => (Branch.of_mem_reached hbranch).1.failure_explore_iff.symm

instance (reader : Reader) (text : List Char) : Decidable (reader.Answers text) :=
  decidable_of_iff
    (∀ branch ∈ (Branch.start text).reached reader text,
      (branch.explore reader text).failure.isNone = true)
    (by simp only [answers_iff, Option.isNone_iff_eq_none])

theorem answers_of_readable (h : Readable reader.locale.grammar text) : reader.Answers text :=
  fun _ hbranch _ => h _ (Branch.of_mem_reached hbranch).2

end Reader

/-- What has been found out about a text after a look at some branches, one after the other. -/
def Progress.after (reader : Reader) (text : List Char) (looked : List Branch) : Progress :=
  (looked.map (Branch.explore reader text)).foldl Progress.add .none

theorem Progress.after_concat (reader : Reader) (text : List Char) (looked : List Branch)
    (branch : Branch) : after reader text (looked ++ [branch]) =
      (after reader text looked).add (branch.explore reader text) := by
  simp [after]

theorem Progress.readings_after (reader : Reader) (text : List Char) (looked : List Branch) :
    (after reader text looked).readings =
      looked.flatMap fun branch => (branch.explore reader text).readings := by
  induction looked using List.reverseRecOn with
  | nil => rfl
  | append_singleton looked branch ih =>
    rw [after_concat, readings_add, ih, List.flatMap_append, List.flatMap_singleton]

namespace Operation

variable {reader : Reader} {listener : Listener} {op : Operation}

/-- A step adds what it finds to the part of its branch, which then waits for the children too. The
other parts stay as they are. -/
theorem searched_step {place j : Nat} (hplace : place < op.outstanding.length)
    {found : List Char × Progress} (hfound : op.searched[j]? = some found) :
    let e := op.outstanding[place].2.explore reader found.1
    (op.step reader listener place).searched[j]? = some
        (if op.outstanding[place].1 = j then (found.1, found.2.add e) else found) ∧
      (op.step reader listener place).queue j = (op.without place).queue j ++
        if op.outstanding[place].1 = j then e.children else [] := by
  rw [step_eq_visit hplace]
  generalize op.outstanding[place] = waiting
  obtain ⟨i, branch⟩ := waiting
  intro e
  cases hcurrent : op.searched[i]? with
  | none =>
    have hne : i ≠ j := by
      intro hij
      rw [hij, hfound] at hcurrent
      cases hcurrent
    have hpart : (op.without place).parts[i]? = none := by
      rw [searched, List.getElem?_map, Option.map_eq_none_iff] at hcurrent
      exact hcurrent
    simp only [visit, hpart, searched_without, hfound, if_neg hne, List.append_nil, and_self]
  | some current =>
    obtain ⟨hsearched, houtstanding⟩ :=
      @searched_visit reader listener (op.without place) i branch current hcurrent
    have hsame (hij : i = j) : current = found := by
      rw [hij, hfound] at hcurrent
      exact (Option.some.inj hcurrent).symm
    have hqueue : ((op.without place).visit reader listener i branch).queue j =
        (op.without place).queue j ++
          if i = j then (branch.explore reader current.1).children else [] := by
      rw [← queue_append]
      simp only [queue, houtstanding]
    rw [hsearched, List.getElem?_modify, searched_without, hfound, hqueue]
    by_cases hij : i = j
    · simp [hij, hsame hij, e]
    · simp [hij]

end Operation

end TimePhrase
