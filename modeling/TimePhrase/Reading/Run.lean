import TimePhrase.Reading.Operation

/-!
# Running an operation to its end

Every step replaces a branch by fewer than `Branch.weight` of its children's weight, so any
order of steps ends. `Operation.run` takes the branches in the order in which they were
entered.
-/

namespace TimePhrase

namespace Branch

theorem weight_le_of_mem_exploreKinds {grammar : Grammar} {text : List Char}
    {branch child : Branch} {recognized : Bool} {kinds : List Kind}
    (h : child ∈ (branch.exploreKinds grammar text recognized kinds).children) :
    child.weight ≤ reach (branch.rest.length - 1) := by
  have := length_of_mem_exploreKinds h
  exact reach_mono (by omega)

/-- The branches behind a branch weigh less than it does. -/
theorem totalWeight_children_lt (reader : Reader) (text : List Char) (branch : Branch) :
    totalWeight (branch.explore reader text).children < branch.weight := by
  have hpos : 0 < branch.weight := reach_pos _
  unfold explore
  split
  · split <;> simpa [totalWeight]
  · rename_i hrest
    let children :=
      (branch.exploreKinds reader.locale.grammar text false Recognizer.kinds).children
    have hchildren : totalWeight children ≤ children.length * reach (branch.rest.length - 1) :=
      totalWeight_le fun child hchild => weight_le_of_mem_exploreKinds hchild
    have hcount : children.length ≤ Recognizer.kinds.length := length_exploreKinds_le
    have htotal := Nat.le_trans hchildren (Nat.mul_le_mul_right _ hcount)
    have hreach := reach_pos (branch.rest.length - 1)
    change totalWeight children < branch.weight
    cases hlen : branch.rest.length with
    | zero => simp_all
    | succ length =>
      simp only [weight, hlen, reach, Nat.add_sub_cancel] at *
      omega

end Branch

namespace Operation

variable (reader : Reader) (listener : Listener)

@[simp] theorem outstanding_fail (op : Operation) (f : Failure) :
    (op.fail f).outstanding = op.outstanding := rfl

@[simp] theorem outstanding_heed (op : Operation) (f : Option Failure) :
    (op.heed f).outstanding = op.outstanding := by cases f <;> rfl

@[simp] theorem outstanding_report (op : Operation) (n : Notice) :
    (op.report n).outstanding = op.outstanding := rfl

@[simp] theorem outstanding_modifyPart (op : Operation) (i : Nat) (f : PartState → PartState) :
    (op.modifyPart i f).outstanding = op.outstanding := rfl

@[simp] theorem outstanding_finishAll (op : Operation) :
    (op.finishAll listener).outstanding = op.outstanding := by
  simp [finishAll]

@[simp] theorem outstanding_finishPart (op : Operation) (i : Nat) (part : PartState) :
    (op.finishPart listener i part).outstanding = op.outstanding := by
  unfold finishPart
  dsimp only
  split
  · simp
  · split <;> simp

@[simp] theorem outstanding_completeBranch (op : Operation) (i : Nat) :
    (op.completeBranch listener i).outstanding = op.outstanding := by
  unfold completeBranch
  split
  · rfl
  · split
    · rfl
    · dsimp only
      split <;> simp

@[simp] theorem outstanding_absorb (op : Operation) (i : Nat) (e : Exploration) :
    (op.absorb i e).outstanding = op.outstanding := by
  unfold absorb
  dsimp only
  split <;> simp

@[simp] theorem outstanding_enter (op : Operation) (i : Nat) (children : List Branch) :
    (op.enter i children).outstanding =
      op.outstanding ++ children.map fun child => (i, child) := rfl

theorem weight_visit_lt (op : Operation) (i : Nat) (branch : Branch) :
    (op.visit reader listener i branch).weight < op.weight + branch.weight := by
  unfold visit
  split
  · have : 0 < branch.weight := Branch.reach_pos _
    omega
  · rename_i part _
    have := branch.totalWeight_children_lt reader part.text
    simp only [weight, outstanding_completeBranch, outstanding_enter, outstanding_absorb,
      List.map_append, List.map_map, Branch.totalWeight_append, Function.comp_def, List.map_id']
    omega

/-- Looks at the outstanding branches one after the other, each time the one that has waited
longest, until none is left. -/
def run (op : Operation) : Operation :=
  match h : op.outstanding with
  | [] => op
  | (index, branch) :: others =>
    have : ({ op with outstanding := others }.visit reader listener index branch).weight <
        op.weight := by
      have := weight_visit_lt reader listener { op with outstanding := others } index branch
      simpa [weight, h, Branch.totalWeight, Nat.add_comm] using this
    ({ op with outstanding := others }.visit reader listener index branch).run
termination_by op.weight

end Operation

/-- Cuts a text at every separator. `piece` holds the piece so far, its last character first,
and `skip` characters belong to a separator before. -/
def cutAt (separators : List (List Char)) (piece : List Char) : Nat → List Char → List (List Char)
  | skip + 1, _ :: rest => cutAt separators piece skip rest
  | _, [] => [piece.reverse]
  | 0, c :: rest =>
    match separators.find? (·.isPrefixOf (c :: rest)) with
    | some separator => piece.reverse :: cutAt separators [] (separator.length - 1) rest
    | none => cutAt separators (c :: piece) 0 rest

/-- The expressions of an input: its pieces between separators, without blanks at their ends
and without those that are all blank, unless all are. -/
def Locale.split (locale : Locale) (text : String) : List (List Char) :=
  let separators := (locale.longest .separators).map String.toList
  let pieces := ((cutAt separators [] 0 text.toList).map Text.strip).filter (!·.isEmpty)
  if pieces.isEmpty then [Text.strip text.toList] else pieces

namespace Reader

/-- Reads an input, which is a single expression unless several are allowed. -/
def submit (reader : Reader) (listener : Listener) (id : Nat) (registered : List Nat)
    (text : String) (several : Bool) : Operation :=
  let parts := if several then reader.locale.split text else [Text.strip text.toList]
  (Operation.start id registered text parts).run reader listener

/-- What an operation that has ended has come to. -/
def resultOf (op : Operation) : Except Failure Selections :=
  op.result.getD (.ok op.selections)

/-- Reads all expressions of an input. An expression that cannot be read has its fault in the
result. -/
def readAll (reader : Reader) (text : String) : Except Failure Selections :=
  resultOf (reader.submit .silent 0 [] text true)

/-- Reads a single expression. -/
def read (reader : Reader) (text : String) : Except Failure (List Term) := do
  let result ← resultOf (reader.submit .silent 0 [] text false)
  match result.parts.map Selection.outcome with
  | .ok readings :: _ => return readings
  | .error error :: _ => refuse error
  | [] => return []

end Reader

end TimePhrase
