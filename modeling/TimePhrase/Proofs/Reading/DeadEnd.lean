import TimePhrase.Proofs.Reading.AnyOrder
import TimePhrase.Proofs.Reading.Parts

/-!
# Dead ends

Every way through a text without readings comes to a dead end: a place where nothing is recognized,
a part that does not go with those before it, or at the end of the text an expression that is
refused as a whole. What is reported is the dead end that lies furthest into the text. The search
keeps two maxima for this, which are compared in the end, and the one of the places where nothing is
recognized begins with 0 before there is such a place.
-/

namespace TimePhrase

namespace Branch

/-- A recognizer finds the part in the rest of the text, and the part takes in something. -/
def Finds (grammar : Grammar) (branch : Branch) (found : Found) : Prop :=
  found.rest.length < branch.rest.length ∧
    ∃ kind, Recognizer.ofKind kind grammar branch.rest = .ok (some found)

/-- There is text left, and no recognizer finds anything in it. -/
def IsStuck (grammar : Grammar) (branch : Branch) : Prop :=
  branch.rest ≠ [] ∧ ∀ found, ¬ branch.Finds grammar found

/-- The branch is reached by a chain of parts that are found one behind the other, each of which
goes with those before it. -/
inductive Reaches (reader : Reader) (text : List Char) : Branch → Prop
  | start : Reaches reader text (start text)
  | step {branch child : Branch} {found : Found} (h : Reaches reader text branch)
    (hfound : branch.Finds reader.locale.grammar found)
    (hextend : branch.extend found = .ok child) : Reaches reader text child

/-- The branch leads to a fault, with the offset up to which the text has been read: that of a part
which does not go with those before it, or that of the whole expression. -/
inductive Rejects (reader : Reader) (text : List Char) (branch : Branch) (error : ExpressionError) :
    Nat → Prop
  | part {found : Found} (hfound : branch.Finds reader.locale.grammar found)
    (hextend : branch.extend found = .error (.expression error)) :
    Rejects reader text branch error (text.length - found.rest.length)
  | whole (hrest : branch.rest = []) (hfinish : branch.finish reader = .error (.expression error)) :
    Rejects reader text branch error text.length

variable {reader : Reader} {grammar : Grammar} {text : List Char} {branch child : Branch}
  {found : Found} {error : ExpressionError} {offset : Nat}

section Explorations

/-- The parts that recognizers of the given kinds find. -/
def foundBy (grammar : Grammar) (branch : Branch) (kinds : List Kind) : List Found :=
  kinds.filterMap fun kind =>
    (branch.recognize grammar kind).toOption.join.map Subtype.val

/-- The fault of a part that does not go with those before it. -/
def faultOf? (text : List Char) (branch : Branch) (found : Found) :
    Option (ExpressionError × Nat) :=
  match branch.extend found with
  | .error (.expression error) => some (error, text.length - found.rest.length)
  | _ => none

theorem recognize_eq_some_iff {kind : Kind}
    {found : { found : Found // found.rest.length < branch.rest.length }} :
    branch.recognize grammar kind = .ok (some found) ↔
      Recognizer.ofKind kind grammar branch.rest = .ok (some found.val) := by
  unfold recognize
  cases hanswer : Recognizer.ofKind kind grammar branch.rest with
  | error failure => simp [bind, Except.bind]
  | ok answer =>
    cases answer with
    | none => simp
    | some other =>
      rw [ok_bind]
      by_cases hlt : other.rest.length < branch.rest.length
      · simp [hlt, Subtype.ext_iff]
      · have hne : other ≠ found.val := fun heq => hlt (heq ▸ found.property)
        simp [hlt, hne]

theorem mem_foundBy_iff {kinds : List Kind} : found ∈ branch.foundBy grammar kinds ↔
    found.rest.length < branch.rest.length ∧
      ∃ kind ∈ kinds, Recognizer.ofKind kind grammar branch.rest = .ok (some found) := by
  simp only [foundBy, List.mem_filterMap, Option.map_eq_some_iff, Option.join_eq_some_iff]
  constructor
  · rintro ⟨kind, hkind, found, hfound, rfl⟩
    exact ⟨found.property, kind, hkind, recognize_eq_some_iff.1 (eq_ok_of_toOption hfound)⟩
  · rintro ⟨hlt, kind, hkind, hfound⟩
    have hrecognize : branch.recognize grammar kind = .ok (some ⟨found, hlt⟩) :=
      recognize_eq_some_iff.2 hfound
    exact ⟨kind, hkind, ⟨found, hlt⟩, by rw [hrecognize]; rfl, rfl⟩

theorem mem_foundBy_kinds_iff :
    found ∈ branch.foundBy grammar Recognizer.kinds ↔ branch.Finds grammar found := by
  simp only [mem_foundBy_iff, Finds, Recognizer.mem_kinds, true_and]

/-- What an exploration that comes to its end brings to light about the parts that are found. -/
theorem exploreKinds_of_failure {recognized : Bool} {kinds : List Kind}
    (h : (branch.exploreKinds grammar text recognized kinds).failure = none) :
    let e := branch.exploreKinds grammar text recognized kinds
    e.rejections = (branch.foundBy grammar kinds).filterMap (branch.faultOf? text) ∧
      e.children = (branch.foundBy grammar kinds).filterMap (fun found =>
        (branch.extend found).toOption) ∧
      e.stuck = if recognized = true ∨ branch.foundBy grammar kinds ≠ [] then none
        else some (branch.offset text) := by
  induction kinds generalizing recognized with
  | nil => simp [exploreKinds, foundBy]
  | cons kind kinds ih =>
    rw [exploreKinds] at h ⊢
    rw [foundBy, List.filterMap_cons, ← foundBy]
    cases hanswer : branch.recognize grammar kind with
    | error failure => simp [hanswer] at h
    | ok answer =>
      cases answer with
      | none =>
        simp only [hanswer] at h ⊢
        exact ih h
      | some found =>
        simp only [hanswer] at h ⊢
        cases hextend : branch.extend found.val with
        | ok child =>
          simp only [hextend] at h ⊢
          obtain ⟨hrejections, hchildren, hstuck⟩ := ih h
          simp [hrejections, hchildren, hstuck, h, faultOf?, hextend, Except.toOption]
        | error failure =>
          cases failure with
          | expression error =>
            simp only [hextend] at h ⊢
            obtain ⟨hrejections, hchildren, hstuck⟩ := ih h
            simp [hrejections, hchildren, hstuck, faultOf?, hextend, Except.toOption]
          | _ => simp [hextend] at h

theorem finds_of_isEmpty (hrest : branch.rest = []) : ¬ branch.Finds grammar found := by
  rintro ⟨hlt, -⟩
  rw [hrest] at hlt
  exact Nat.not_lt_zero _ hlt

theorem mem_children_iff (h : (branch.explore reader text).failure = none) :
    child ∈ (branch.explore reader text).children ↔
      ∃ found, branch.Finds reader.locale.grammar found ∧ branch.extend found = .ok child := by
  by_cases hrest : branch.rest = []
  · rw [(explore_of_isEmpty reader text (List.isEmpty_iff.2 hrest)).2]
    refine ⟨fun hchild => absurd hchild List.not_mem_nil, ?_⟩
    rintro ⟨found, hfound, -⟩
    exact absurd hfound (finds_of_isEmpty hrest)
  · rw [explore, if_neg (mt List.isEmpty_iff.1 hrest)] at h ⊢
    rw [(exploreKinds_of_failure h).2.1, List.mem_filterMap]
    simp only [mem_foundBy_kinds_iff]
    constructor
    · rintro ⟨found, hfound, hextend⟩
      exact ⟨found, hfound, eq_ok_of_toOption hextend⟩
    · rintro ⟨found, hfound, hextend⟩
      exact ⟨found, hfound, by rw [hextend]; rfl⟩

theorem mem_rejections_iff (h : (branch.explore reader text).failure = none) :
    (error, offset) ∈ (branch.explore reader text).rejections ↔
      branch.Rejects reader text error offset := by
  by_cases hrest : branch.rest = []
  · rw [explore, if_pos (List.isEmpty_iff.2 hrest)] at h ⊢
    constructor
    · intro hmem
      split at hmem
      · exact absurd hmem List.not_mem_nil
      · rename_i hfinish
        obtain ⟨rfl, rfl⟩ := Prod.mk.inj (List.mem_singleton.1 hmem)
        exact .whole hrest hfinish
      · exact absurd hmem List.not_mem_nil
    · rintro (⟨hfound, -⟩ | ⟨-, hfinish⟩)
      · exact absurd hfound (finds_of_isEmpty hrest)
      · simp [hfinish]
  · rw [explore, if_neg (mt List.isEmpty_iff.1 hrest)] at h ⊢
    rw [(exploreKinds_of_failure h).1, List.mem_filterMap]
    simp only [mem_foundBy_kinds_iff]
    constructor
    · rintro ⟨found, hfound, hfault⟩
      unfold faultOf? at hfault
      split at hfault
      · rename_i hextend
        obtain ⟨rfl, rfl⟩ := Prod.mk.inj (Option.some.inj hfault)
        exact .part hfound hextend
      · cases hfault
    · rintro (⟨hfound, hextend⟩ | ⟨hnil, -⟩)
      · exact ⟨_, hfound, by rw [faultOf?, hextend]⟩
      · exact absurd hnil hrest

theorem stuck_eq_some_iff (h : (branch.explore reader text).failure = none) :
    (branch.explore reader text).stuck = some offset ↔
      branch.IsStuck reader.locale.grammar ∧ branch.offset text = offset := by
  by_cases hrest : branch.rest = []
  · rw [explore, if_pos (List.isEmpty_iff.2 hrest)]
    have hnone : ¬ branch.IsStuck reader.locale.grammar := fun hstuck => hstuck.1 hrest
    simp only [hnone, false_and, iff_false]
    split <;> nofun
  · rw [explore, if_neg (mt List.isEmpty_iff.1 hrest)] at h ⊢
    have hstuck : branch.foundBy reader.locale.grammar Recognizer.kinds = [] ↔
        branch.IsStuck reader.locale.grammar := by
      simp only [List.eq_nil_iff_forall_not_mem, mem_foundBy_kinds_iff, IsStuck, ne_eq, hrest,
        not_false_eq_true, true_and]
    rw [(exploreKinds_of_failure h).2.2, ← hstuck]
    by_cases hnil : branch.foundBy reader.locale.grammar Recognizer.kinds = []
    · simp [hnil]
    · simp [hnil]

end Explorations

section Ways

theorem Finds.recognized_and_suffix {locale : Locale} (h : branch.Finds locale.grammar found) :
    found.part.Recognized ∧ found.rest <:+ branch.rest := by
  obtain ⟨-, kind, hfound⟩ := h
  obtain ⟨hpart, -, hrest⟩ := Recognizer.of_ofKind hfound
  exact ⟨hpart, hrest⟩

theorem Reaches.inRange_and_suffix (h : branch.Reaches reader text) :
    branch.InRange ∧ branch.rest <:+ text := by
  induction h with
  | start => exact ⟨inRange_start text, List.suffix_refl text⟩
  | step _ hfound hextend ih =>
    obtain ⟨hrange, hsuffix⟩ := ih
    obtain ⟨hpart, hrest⟩ := hfound.recognized_and_suffix
    refine ⟨(hrange.extend hpart).2 _ hextend, ?_⟩
    rw [rest_of_extend hextend]
    exact hrest.trans hsuffix

/-- The branches that are reached go on with those that they lead to. -/
theorem mem_reached_of_mem_children {other : Branch} (h : other ∈ branch.reached reader text)
    (hchild : child ∈ (other.explore reader text).children) :
    child ∈ branch.reached reader text := by
  induction hlength : branch.rest.length using Nat.strongRecOn generalizing branch with
  | ind length ih =>
    rw [reached_eq] at h ⊢
    apply List.mem_cons_of_mem
    rcases List.mem_cons.1 h with rfl | h
    · refine List.mem_flatMap.2 ⟨child, hchild, ?_⟩
      rw [reached_eq]
      exact List.mem_cons_self ..
    · obtain ⟨next, hnext, h⟩ := List.mem_flatMap.1 h
      have hshorter : next.rest.length < length := hlength ▸ length_of_mem_explore hnext
      exact List.mem_flatMap.2 ⟨next, hnext, ih _ hshorter h rfl⟩

/-- Where no recognizer fails, the search looks at the branches that chains of parts lead to. -/
theorem mem_reached_iff (h : reader.Answers text) :
    branch ∈ (start text).reached reader text ↔ branch.Reaches reader text := by
  have hfailure := Reader.answers_iff.1 h
  constructor
  · intro hbranch
    have hboth := reached_induct (P := fun branch =>
      branch ∈ (start text).reached reader text ∧ branch.Reaches reader text) ?_ ?_ branch hbranch
    · exact hboth.2
    · rintro branch ⟨hbranch, hreaches⟩ child hchild
      obtain ⟨found, hfound, hextend⟩ := (mem_children_iff (hfailure branch hbranch)).1 hchild
      exact ⟨mem_reached_of_mem_children hbranch hchild, hreaches.step hfound hextend⟩
    · rw [reached_eq]
      exact ⟨List.mem_cons_self .., .start⟩
  · intro hreaches
    induction hreaches with
    | start =>
      rw [reached_eq]
      exact List.mem_cons_self ..
    | step _ hfound hextend ih =>
      exact mem_reached_of_mem_children ih
        ((mem_children_iff (hfailure _ ih)).2 ⟨_, hfound, hextend⟩)

/-- Every way through a text ends with an expression, where the reader is stuck, or with a fault. -/
theorem Reaches.exists_end (h : branch.Reaches reader text) :
    ∃ last : Branch, last.Reaches reader text ∧
      ((last.rest = [] ∧ ∃ term, last.finish reader = .ok term) ∨
        last.IsStuck reader.locale.grammar ∨
          ∃ error offset, last.Rejects reader text error offset) := by
  induction hlength : branch.rest.length using Nat.strongRecOn generalizing branch with
  | ind length ih =>
    obtain ⟨hrange, -⟩ := h.inRange_and_suffix
    by_cases hrest : branch.rest = []
    · cases hfinish : branch.finish reader with
      | ok term => exact ⟨branch, h, Or.inl ⟨hrest, term, hfinish⟩⟩
      | error failure =>
        obtain ⟨error, rfl, -⟩ := hrange.finish failure hfinish
        exact ⟨branch, h, Or.inr (Or.inr ⟨error, _, .whole hrest hfinish⟩)⟩
    by_cases hstuck : branch.IsStuck reader.locale.grammar
    · exact ⟨branch, h, Or.inr (Or.inl hstuck)⟩
    obtain ⟨found, hfound⟩ : ∃ found, branch.Finds reader.locale.grammar found := by
      simpa [IsStuck, hrest] using hstuck
    cases hextend : branch.extend found with
    | ok child =>
      have hshorter : child.rest.length < length := by
        rw [rest_of_extend hextend, ← hlength]
        exact hfound.1
      exact ih _ hshorter (h.step hfound hextend) rfl
    | error failure =>
      obtain ⟨error, rfl, -⟩ := (hrange.extend hfound.recognized_and_suffix.1).1 failure hextend
      exact ⟨branch, h, Or.inr (Or.inr ⟨error, _, .part hfound hextend⟩)⟩

/-- A fault is one of what an expression means, not of what can be read. -/
theorem Rejects.kind_ne (h : branch.Rejects reader text error offset)
    (hreaches : branch.Reaches reader text) : error.kind ≠ .unparsable := by
  obtain ⟨hrange, -⟩ := hreaches.inRange_and_suffix
  cases h with
  | part hfound hextend =>
    obtain ⟨_, herror, hkind⟩ :=
      (hrange.extend hfound.recognized_and_suffix.1).1 _ hextend
    obtain rfl := Failure.expression.inj herror
    exact hkind
  | whole hrest hfinish =>
    obtain ⟨_, herror, hkind⟩ := hrange.finish _ hfinish
    obtain rfl := Failure.expression.inj herror
    exact hkind

end Ways

end Branch

/-- The fault is the first of those that lie furthest into the text. -/
def FirstFurthest (faults : List (ExpressionError × Nat)) (fault : ExpressionError × Nat) : Prop :=
  ∃ before behind, faults = before ++ fault :: behind ∧
    (∀ other ∈ before, other.2 < fault.2) ∧ ∀ other ∈ behind, other.2 ≤ fault.2

namespace Progress

variable {p : Progress} {faults : List (ExpressionError × Nat)} {error : ExpressionError}
  {offset : Nat}

/-- The fault that counts is the first of those that lie furthest, as long as there is one. -/
def Notes (p : Progress) (faults : List (ExpressionError × Nat)) : Prop :=
  match p.rejection with
  | .none => faults = []
  | some fault => FirstFurthest faults fault

theorem Notes.reject (h : p.Notes faults) (error : ExpressionError) (offset : Nat) :
    (p.reject error offset).Notes (faults ++ [(error, offset)]) := by
  unfold Notes at h
  cases hrejection : p.rejection with
  | none =>
    rw [hrejection] at h
    obtain rfl := h
    simp only [Notes, Progress.reject, hrejection]
    exact ⟨[], [], rfl, nofun, nofun⟩
  | some known =>
    rw [hrejection] at h
    obtain ⟨before, behind, rfl, hbefore, hbehind⟩ := h
    simp only [Notes, Progress.reject, hrejection]
    by_cases hfurther : known.2 < offset
    · rw [if_pos hfurther]
      refine ⟨before ++ known :: behind, [], rfl, fun other hother => ?_, nofun⟩
      rcases List.mem_append.1 hother with hother | hother
      · exact Nat.lt_trans (hbefore other hother) hfurther
      · rcases List.mem_cons.1 hother with rfl | hother
        · exact hfurther
        · exact Nat.lt_of_le_of_lt (hbehind other hother) hfurther
    · rw [if_neg hfurther, hrejection]
      refine ⟨before, behind ++ [(error, offset)], by simp, hbefore, fun other hother => ?_⟩
      rcases List.mem_append.1 hother with hother | hother
      · exact hbehind other hother
      · rw [List.mem_singleton.1 hother]
        exact Nat.not_lt.1 hfurther

theorem Notes.add (h : p.Notes faults) (e : Exploration) :
    (p.add e).Notes (faults ++ e.rejections) := by
  have hfold : (e.rejections.foldl (fun p fault => p.reject fault.1 fault.2) p).Notes
      (faults ++ e.rejections) := by
    generalize e.rejections = rejections
    induction rejections generalizing p faults with
    | nil => simpa using h
    | cons fault rest ih =>
      have hrest := ih (h.reject fault.1 fault.2)
      simpa using hrest
  exact hfold

/-- After looks at some branches, the fault that counts is the first of those that lie furthest. -/
theorem notes_after (reader : Reader) (text : List Char) (looked : List Branch) :
    (after reader text looked).Notes
      (looked.flatMap fun branch => (branch.explore reader text).rejections) := by
  induction looked using List.reverseRecOn with
  | nil => rfl
  | append_singleton looked branch ih =>
    rw [after_concat, List.flatMap_append, List.flatMap_singleton]
    exact ih.add _

/-- After looks at some branches, the furthest place where one of them is stuck is known. Before
there is one, it is held to be at the start of the text. -/
theorem stuckAt_after (reader : Reader) (text : List Char) (looked : List Branch) :
    (∀ branch ∈ looked, ∀ offset, (branch.explore reader text).stuck = some offset →
        offset ≤ (after reader text looked).stuckAt) ∧
      ((after reader text looked).stuckAt ≠ 0 → ∃ branch ∈ looked,
        (branch.explore reader text).stuck = some (after reader text looked).stuckAt) := by
  induction looked using List.reverseRecOn with
  | nil => exact ⟨nofun, fun h => absurd rfl h⟩
  | append_singleton looked branch ih =>
    obtain ⟨hle, hattained⟩ := ih
    rw [after_concat, stuckAt_add]
    constructor
    · intro other hother offset hoffset
      rcases List.mem_append.1 hother with hother | hother
      · exact Nat.le_trans (hle other hother offset hoffset) (Nat.le_max_left ..)
      · obtain rfl := List.mem_singleton.1 hother
        rw [hoffset]
        exact Nat.le_max_right ..
    · intro hne
      rcases Nat.le_total ((branch.explore reader text).stuck.getD 0)
        (after reader text looked).stuckAt with hbefore | hnow
      · rw [Nat.max_eq_left hbefore] at hne ⊢
        obtain ⟨other, hother, hstuck⟩ := hattained hne
        exact ⟨other, List.mem_append_left _ hother, hstuck⟩
      · rw [Nat.max_eq_right hnow] at hne ⊢
        refine ⟨branch, by simp, ?_⟩
        cases hstuck : (branch.explore reader text).stuck with
        | none => simp [hstuck] at hne
        | some offset => rfl

end Progress

namespace Reader

open Branch

variable {reader : Reader} {text : List Char} {branch : Branch} {error : ExpressionError}
  {offset : Nat}

/-- The faults that a search through a text discovers, in the order of their discovery. -/
def faultsOf (reader : Reader) (text : List Char) : List (ExpressionError × Nat) :=
  (inTurn reader text [.start text]).flatMap fun branch => (branch.explore reader text).rejections

theorem mem_inTurn_iff (h : reader.Answers text) :
    branch ∈ inTurn reader text [.start text] ↔ branch.Reaches reader text := by
  have hperm := inTurn_perm reader text [.start text]
  rw [List.flatMap_singleton] at hperm
  exact hperm.mem_iff.trans (mem_reached_iff h)

theorem failure_explore_of_reaches (h : reader.Answers text)
    (hreaches : branch.Reaches reader text) : (branch.explore reader text).failure = none :=
  answers_iff.1 h branch ((mem_reached_iff h).2 hreaches)

theorem mem_faultsOf_iff (h : reader.Answers text) : (error, offset) ∈ reader.faultsOf text ↔
    ∃ branch : Branch, branch.Reaches reader text ∧ branch.Rejects reader text error offset := by
  simp only [faultsOf, List.mem_flatMap, mem_inTurn_iff h]
  refine exists_congr fun branch => and_congr_right fun hreaches => ?_
  exact mem_rejections_iff (failure_explore_of_reaches h hreaches)

/-- The furthest place where the reader is stuck is known, and there is one unless it is held to be
at the start of the text. -/
theorem stuckAt_progressOf (h : reader.Answers text) :
    (∀ branch : Branch, branch.Reaches reader text → branch.IsStuck reader.locale.grammar →
        branch.offset text ≤ (reader.progressOf text).stuckAt) ∧
      ((reader.progressOf text).stuckAt ≠ 0 → ∃ branch : Branch, branch.Reaches reader text ∧
        branch.IsStuck reader.locale.grammar ∧
          branch.offset text = (reader.progressOf text).stuckAt) := by
  obtain ⟨hle, hattained⟩ := Progress.stuckAt_after reader text (inTurn reader text [.start text])
  constructor
  · intro branch hreaches hstuck
    have hexplore := failure_explore_of_reaches h hreaches
    have hturn := (mem_inTurn_iff h).2 hreaches
    exact hle branch hturn _ ((stuck_eq_some_iff hexplore).2 ⟨hstuck, rfl⟩)
  · intro hne
    obtain ⟨branch, hbranch, hstuck⟩ := hattained hne
    have hreaches := (mem_inTurn_iff h).1 hbranch
    have hexplore := failure_explore_of_reaches h hreaches
    exact ⟨branch, hreaches, (stuck_eq_some_iff hexplore).1 hstuck⟩

/-- A text without readings has a place where the reader is stuck, or a fault. -/
theorem exists_deadEnd (h : reader.Answers text) (hnone : (reader.progressOf text).readings = []) :
    ∃ branch : Branch, branch.Reaches reader text ∧ (branch.IsStuck reader.locale.grammar ∨
      ∃ error offset, branch.Rejects reader text error offset) := by
  have hstart : (start text).Reaches reader text := .start
  obtain ⟨last, hreaches, ⟨hrest, term, hfinish⟩ | hend⟩ := hstart.exists_end
  · have hreadings : (last.explore reader text).readings = [term] := by
      rw [explore, if_pos (List.isEmpty_iff.2 hrest), hfinish]
    rw [progressOf, Progress.readings_after, List.flatMap_eq_nil_iff] at hnone
    rw [hnone last ((mem_inTurn_iff h).2 hreaches)] at hreadings
    cases hreadings
  · exact ⟨last, hreaches, hend⟩

/-- The reader is stuck at the offset and nowhere behind it, and all faults lie before it. -/
structure StuckFurthest (reader : Reader) (text : List Char) (offset : Nat) : Prop where
  lt_length : offset < text.length
  stuck : ∃ branch : Branch, branch.Reaches reader text ∧ branch.IsStuck reader.locale.grammar ∧
    branch.rest = text.drop offset
  furthest : ∀ branch : Branch, branch.Reaches reader text →
    branch.IsStuck reader.locale.grammar → branch.offset text ≤ offset
  faults : ∀ branch : Branch, branch.Reaches reader text →
    ∀ fault n, branch.Rejects reader text fault n → n < offset

/-- The fault is the first that the search discovers of those that lie furthest into the text, and
the reader is stuck nowhere behind it. -/
structure FaultFurthest (reader : Reader) (text : List Char) (error : ExpressionError)
    (offset : Nat) : Prop where
  first : FirstFurthest (reader.faultsOf text) (error, offset)
  rejected : ∃ branch : Branch, branch.Reaches reader text ∧ branch.Rejects reader text error offset
  furthest : ∀ branch : Branch, branch.Reaches reader text →
    branch.IsStuck reader.locale.grammar → branch.offset text ≤ offset

/-- A place where the reader is stuck is the furthest dead end if all faults lie before it. -/
theorem stuckFurthest_stuckAt (h : reader.Answers text)
    (hstuck : ∃ branch : Branch, branch.Reaches reader text ∧ branch.IsStuck reader.locale.grammar ∧
      branch.offset text = (reader.progressOf text).stuckAt)
    (hfaults : ∀ fault ∈ reader.faultsOf text, fault.2 < (reader.progressOf text).stuckAt) :
    reader.StuckFurthest text (reader.progressOf text).stuckAt := by
  obtain ⟨branch, hreaches, hbranch, hoffset⟩ := hstuck
  obtain ⟨-, hsuffix⟩ := hreaches.inRange_and_suffix
  have hlength := List.length_pos_iff.2 hbranch.1
  have hle := hsuffix.length_le
  refine ⟨?_, ⟨branch, hreaches, hbranch, ?_⟩, (stuckAt_progressOf h).1, ?_⟩
  · rw [← hoffset, Branch.offset]
    omega
  · rw [← hoffset]
    exact List.suffix_iff_eq_drop.1 hsuffix
  · intro other hother fault n hfault
    exact hfaults _ ((mem_faultsOf_iff h).2 ⟨other, hother, hfault⟩)

theorem deadEnd_of_readings_eq_nil (h : reader.Answers text)
    (hnone : (reader.progressOf text).readings = []) :
    (∃ offset : Nat, (reader.progressOf text).fault text =
        .unparsable (String.ofList text) offset ∧ reader.StuckFurthest text offset) ∨
      ∃ offset, reader.FaultFurthest text ((reader.progressOf text).fault text) offset := by
  obtain ⟨hle, hattained⟩ := stuckAt_progressOf h
  have hnotes : (reader.progressOf text).Notes (reader.faultsOf text) := Progress.notes_after ..
  unfold Progress.Notes at hnotes
  unfold Progress.fault
  cases hrejection : (reader.progressOf text).rejection with
  | none =>
    rw [hrejection] at hnotes
    -- no fault is known, so the place where the reader is stuck is a real one, be it the start
    refine Or.inl ⟨_, rfl, stuckFurthest_stuckAt h ?_ (by simp [hnotes])⟩
    obtain ⟨branch, hreaches, hstuck | ⟨error, offset, hrejects⟩⟩ := exists_deadEnd h hnone
    · by_cases hzero : (reader.progressOf text).stuckAt = 0
      · have hoffset := hle branch hreaches hstuck
        exact ⟨branch, hreaches, hstuck, by omega⟩
      · exact hattained hzero
    · have hmem := (mem_faultsOf_iff h).2 ⟨branch, hreaches, hrejects⟩
      rw [hnotes] at hmem
      exact absurd hmem List.not_mem_nil
  | some fault =>
    rw [hrejection] at hnotes
    obtain ⟨error, offset⟩ := fault
    dsimp only
    by_cases hfurther : (reader.progressOf text).stuckAt ≤ offset
    · rw [if_pos hfurther]
      refine Or.inr ⟨offset, hnotes, ?_, fun branch hreaches hstuck => ?_⟩
      · obtain ⟨before, behind, hfaults, -⟩ := hnotes
        exact (mem_faultsOf_iff h).1 (by simp [hfaults])
      · exact Nat.le_trans (hle branch hreaches hstuck) hfurther
    · rw [if_neg hfurther]
      refine Or.inl ⟨_, rfl, stuckFurthest_stuckAt h (hattained (by omega)) ?_⟩
      obtain ⟨before, behind, hfaults, hbefore, hbehind⟩ := hnotes
      intro other hother
      have hlt := Nat.not_le.1 hfurther
      rw [hfaults] at hother
      rcases List.mem_append.1 hother with hother | hother
      · exact Nat.lt_trans (hbefore other hother) hlt
      · rcases List.mem_cons.1 hother with rfl | hother
        · exact hlt
        · exact Nat.lt_of_le_of_lt (hbehind other hother) hlt

theorem remaining_ne_empty (h : offset < text.length) :
    ExpressionError.remaining (String.ofList text) offset ≠ "" := by
  have hdrop : text.drop offset ≠ [] := by
    rw [Ne, List.drop_eq_nil_iff]
    omega
  intro hempty
  rw [ExpressionError.remaining, if_neg (by omega)] at hempty
  exact hdrop (by simpa using congrArg String.toList hempty)

/-- A text that no recognizer fails on and that has no reading is reported with its furthest dead
end. Either the text cannot be understood from there on, which is never the end of it, or a part
does not go with those before it, or the whole expression is refused. -/
theorem read_deadEnd {text : String} {failure : Failure}
    (hanswers : reader.Answers (Text.strip text.toList)) (h : reader.read text = .error failure) :
    ∃ error, failure = .expression error ∧
      ((∃ offset : Nat, error = .unparsable (String.ofList (Text.strip text.toList)) offset ∧
          reader.StuckFurthest (Text.strip text.toList) offset ∧
          ExpressionError.remaining (String.ofList (Text.strip text.toList)) offset ≠ "") ∨
        (error.kind ≠ .unparsable ∧
          ∃ offset, reader.FaultFurthest (Text.strip text.toList) error offset)) := by
  generalize hchars : Text.strip text.toList = chars at *
  rw [read_eq_answer, hchars, failureOf_eq_none_iff.2 hanswers, Option.elim_none,
    Selection.answer, selectionOf, Progress.outcome_eq] at h
  by_cases hnone : (reader.progressOf chars).readings = []
  · rw [if_pos hnone] at h
    refine ⟨_, (Except.error.inj h).symm, ?_⟩
    obtain ⟨offset, hfault, hstuck⟩ | ⟨offset, hfault⟩ := deadEnd_of_readings_eq_nil hanswers hnone
    · exact Or.inl ⟨offset, hfault, hstuck, remaining_ne_empty hstuck.lt_length⟩
    · obtain ⟨branch, hreaches, hrejects⟩ := hfault.rejected
      exact Or.inr ⟨hrejects.kind_ne hreaches, offset, hfault⟩
  · rw [if_neg hnone] at h
    cases h

/-- Nothing is recognized behind "Monday ", and a text of blanks is refused as a whole. -/
theorem read_deadEnd_blah :
    let reader : Reader := ⟨.english, ⟨⟨2024, 1, 3, by decide⟩, 9, 30, 0, 0⟩, .midnight⟩
    reader.StuckFurthest (Text.strip "Monday blah".toList) 7 ∧
      ∃ offset, reader.FaultFurthest (Text.strip "   ".toList) (.namesNoTime "") offset := by
  intro reader
  constructor
  · obtain ⟨hanswers, hread⟩ : reader.Answers (Text.strip "Monday blah".toList) ∧
        (fun _ => ()) <$> reader.read "Monday blah" =
          .error (.expression (.unparsable "Monday blah" 7)) := by decide +kernel
    obtain ⟨error, herror, ⟨offset, rfl, hstuck, -⟩ | ⟨hkind, -⟩⟩ :=
      read_deadEnd hanswers (eq_error_of_map hread)
    · cases herror
      exact hstuck
    · cases herror
      exact absurd rfl hkind
  · obtain ⟨hanswers, hread⟩ : reader.Answers (Text.strip "   ".toList) ∧
        (fun _ => ()) <$> reader.read "   " = .error (.expression (.namesNoTime "")) := by
      decide +kernel
    obtain ⟨error, herror, ⟨offset, rfl, -⟩ | ⟨-, hfault⟩⟩ :=
      read_deadEnd hanswers (eq_error_of_map hread)
    · cases herror
    · cases herror
      exact hfault

end Reader

end TimePhrase
