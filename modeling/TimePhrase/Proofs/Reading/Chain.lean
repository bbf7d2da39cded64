import Mathlib.Data.List.Infix
import TimePhrase.Reading.Branch
import TimePhrase.Proofs.Recognizer
import TimePhrase.Proofs.Refusal

/-!
# Reading by generating and testing

A chain is a way to read a text to its end, one part after the other. The readings of a text are
the chains that are valid once each limiter has been given the content behind it. A branch that
is given up early stands at the beginning of no such chain, so the search through branches comes
to the same readings.
-/

namespace TimePhrase

theorem Recognizer.mem_kinds (kind : Kind) : kind ∈ Recognizer.kinds := by
  cases kind <;> decide

/-- All chains of parts that a text can be read as to its end. -/
def chains (grammar : Grammar) (text : List Char) : List (List Part) :=
  if text.isEmpty then [[]]
  else Recognizer.kinds.flatMap fun kind =>
    match Recognizer.ofKind kind grammar text with
    | .ok (some found) =>
      if _h : found.rest.length < text.length then
        (chains grammar found.rest).map (found.part :: ·)
      else []
    | _ => []
termination_by text.length

/-- A chain is empty at the end of the text, and begins with a part that is found elsewhere. -/
theorem mem_chains_iff {grammar : Grammar} {text : List Char} {chain : List Part} :
    chain ∈ chains grammar text ↔ (text = [] ∧ chain = []) ∨ ∃ kind found rest,
      Recognizer.ofKind kind grammar text = .ok (some found) ∧
        found.rest.length < text.length ∧ rest ∈ chains grammar found.rest ∧
          chain = found.part :: rest := by
  rw [chains]
  cases text with
  | nil => simp
  | cons c cs =>
    simp only [List.isEmpty_cons, Bool.false_eq_true, if_false, List.mem_flatMap, reduceCtorEq,
      false_and, false_or]
    constructor
    · rintro ⟨kind, -, h⟩
      split at h
      · rename_i found hfound
        split at h
        · rename_i hlt
          obtain ⟨rest, hrest, rfl⟩ := List.mem_map.1 h
          exact ⟨kind, found, rest, hfound, hlt, hrest, rfl⟩
        · exact absurd h List.not_mem_nil
      · exact absurd h List.not_mem_nil
    · rintro ⟨kind, found, rest, hfound, hlt, hrest, rfl⟩
      refine ⟨kind, Recognizer.mem_kinds kind, ?_⟩
      simp only [hfound, dif_pos hlt]
      exact List.mem_map.2 ⟨rest, hrest, rfl⟩

theorem recognized_of_mem_chains {locale : Locale} {text : List Char} {chain : List Part}
    (h : chain ∈ chains locale.grammar text) : ∀ p ∈ chain, p.Recognized := by
  induction chain generalizing text with
  | nil => exact fun p hp => absurd hp List.not_mem_nil
  | cons p rest ih =>
    obtain ⟨-, hnil⟩ | ⟨kind, found, others, hfound, -, hothers, heq⟩ := mem_chains_iff.1 h
    · exact absurd hnil (List.cons_ne_nil p rest)
    · obtain ⟨rfl, rfl⟩ := List.cons.inj heq
      exact List.forall_mem_cons.2 ⟨(Recognizer.of_ofKind hfound).1, ih hothers⟩

/-- A limit made of the content behind a limiter. -/
def limitOf (content : List Part) : Option (List Part) :=
  if content.isEmpty then none else some content

theorem limitOf_eq_some_iff {content limit : List Part} :
    limitOf content = some limit ↔ content ≠ [] ∧ limit = content := by
  unfold limitOf
  cases content <;> simp [eq_comm]

/-- The content before the first limiter, and the limiters with the content behind each. -/
def gather : List Part → List Part × List Part
  | [] => ([], [])
  | .content c :: rest => (.content c :: (gather rest).1, (gather rest).2)
  | .limiter side _ :: rest => ([], .limiter side (limitOf (gather rest).1) :: (gather rest).2)

/-- The parts of a chain, each limiter with the content up to the next one as its limit. -/
def assemble (chain : List Part) : List Part := (gather chain).1 ++ (gather chain).2

/-- The readings of a text: the terms of its chains that are valid as a whole. -/
def readingsOf (reader : Reader) (text : List Char) : List Term :=
  (chains reader.locale.grammar text).filterMap fun chain =>
    (Term.ofParts (assemble chain) reader.now reader.defaultTime).toOption

theorem mem_readingsOf_iff {reader : Reader} {text : List Char} {term : Term} :
    term ∈ readingsOf reader text ↔ ∃ chain ∈ chains reader.locale.grammar text,
      Term.ofParts (assemble chain) reader.now reader.defaultTime = .ok term := by
  simp only [readingsOf, List.mem_filterMap]
  constructor
  · rintro ⟨chain, hchain, hterm⟩
    exact ⟨chain, hchain, eq_ok_of_toOption hterm⟩
  · rintro ⟨chain, hchain, hok⟩
    exact ⟨chain, hchain, by rw [hok]; rfl⟩

/-- No recognizer fails on the text or on any of its ends. -/
def Readable (grammar : Grammar) (text : List Char) : Prop :=
  ∀ rest, rest <:+ text → ∀ kind, ∃ answer, Recognizer.ofKind kind grammar rest = .ok answer

theorem readable_iff {grammar : Grammar} {text : List Char} :
    Readable grammar text ↔ ∀ rest ∈ text.tails, ∀ kind ∈ Recognizer.kinds,
      (Recognizer.ofKind kind grammar rest).isOk = true := by
  have hok (kind : Kind) (rest : List Char) :
      (Recognizer.ofKind kind grammar rest).isOk = true ↔
        ∃ answer, Recognizer.ofKind kind grammar rest = .ok answer := by
    cases Recognizer.ofKind kind grammar rest <;> simp [Except.isOk, Except.toBool]
  simp only [Readable, List.mem_tails, hok]
  exact ⟨fun h rest hrest kind _ => h rest hrest kind,
    fun h rest hrest kind => h rest hrest kind (Recognizer.mem_kinds kind)⟩

instance (grammar : Grammar) (text : List Char) : Decidable (Readable grammar text) :=
  decidable_of_iff _ readable_iff.symm

namespace Branch

variable {reader : Reader} {branch child : Branch} {found : Found} {chain : List Part}

/-- The parts of the whole expression when a branch goes on with a chain. -/
def assembled (branch : Branch) (chain : List Part) : List Part :=
  match branch.openLimit with
  | none => branch.main ++ (gather chain).1 ++ (gather chain).2
  | some side =>
    branch.main ++ .limiter side (limitOf (branch.nested ++ (gather chain).1)) :: (gather chain).2

/-- The readings that begin with a branch. -/
def terms (reader : Reader) (branch : Branch) : List Term :=
  (chains reader.locale.grammar branch.rest).filterMap fun chain =>
    (Term.ofParts (branch.assembled chain) reader.now reader.defaultTime).toOption

theorem terms_start (text : List Char) : (start text).terms reader = readingsOf reader text := rfl

theorem closedParts_eq_ok_iff {parts : List Part} : branch.closedParts = .ok parts ↔
    match branch.openLimit with
    | none => parts = branch.main
    | some side => branch.nested ≠ [] ∧ ValidParts parts ∧
        parts = branch.main ++ [.limiter side (some branch.nested)] := by
  unfold closedParts
  cases branch.openLimit with
  | none => simpa using eq_comm
  | some side =>
    simp only [refuse_bind, ite_refuse_eq_ok_iff, check_bind_eq_ok_iff, pure_eq_ok,
      Except.ok.injEq, List.isEmpty_iff, checkParts_eq_ok_iff]
    constructor
    · rintro ⟨hne, hvalid, rfl⟩
      exact ⟨hne, hvalid, rfl⟩
    · rintro ⟨hne, hvalid, rfl⟩
      exact ⟨hne, hvalid, rfl⟩

/-- A branch that goes on with a part comes to the same expression as before. -/
theorem assembled_of_extend (h : branch.extend found = .ok child) :
    child.assembled chain = branch.assembled (found.part :: chain) := by
  unfold extend at h
  split at h
  · rename_i side limit hpart
    obtain ⟨main, hmain, h⟩ := bind_eq_ok_iff.1 h
    obtain ⟨-, h⟩ := check_bind_eq_ok_iff.1 h
    obtain rfl := Except.ok.inj h
    have hmain := closedParts_eq_ok_iff.1 hmain
    unfold assembled
    cases hopen : branch.openLimit with
    | none =>
      rw [hopen] at hmain
      simp [hpart, gather, hmain]
    | some open' =>
      rw [hopen] at hmain
      obtain ⟨hne, -, rfl⟩ := hmain
      simp [hpart, gather, limitOf, hne]
  · rename_i c hpart
    split at h
    · rename_i hopen
      obtain ⟨-, h⟩ := check_bind_eq_ok_iff.1 h
      obtain rfl := Except.ok.inj h
      obtain ⟨side, hside⟩ := Option.isSome_iff_exists.1 hopen
      simp [assembled, hside, hpart, gather]
    · rename_i hopen
      obtain ⟨-, h⟩ := check_bind_eq_ok_iff.1 h
      obtain rfl := Except.ok.inj h
      have hnone : branch.openLimit = none := by simpa using hopen
      simp [assembled, hnone, hpart, gather]

/-- If some expression begins with a branch and a part, the branch is not given up there. -/
theorem exists_extend {term : Term} (hfound : found.part.Recognized)
    (h : Term.ofParts (branch.assembled (found.part :: chain)) reader.now reader.defaultTime
      = .ok term) : ∃ child, branch.extend found = .ok child := by
  obtain ⟨-, hvalid, -⟩ := Term.ofParts_eq_ok_iff.1 h
  obtain ⟨part, rest⟩ := found
  cases hfound with
  | @content c hc _ =>
    cases hopen : branch.openLimit with
    | none =>
      simp only [assembled, hopen, gather] at hvalid
      have hmain : ValidParts ((branch.main ++ [.content c]) ++
          ((gather chain).1 ++ (gather chain).2)) := by
        simpa using hvalid
      exact ⟨_, by simp [extend, hopen, checkParts_eq_ok_iff.2 hmain.of_append]; rfl⟩
    | some side =>
      have hmem : .limiter side (limitOf (branch.nested ++ .content c :: (gather chain).1)) ∈
          branch.assembled (.content c :: chain) := by
        simp [assembled, hopen, gather]
      obtain ⟨limit, hlimit, hvalidLimit⟩ := Term.validLimit_of_ofParts h hmem
      obtain ⟨-, rfl⟩ := limitOf_eq_some_iff.1 hlimit
      have hnested : ValidLimit ((branch.nested ++ [.content c]) ++ (gather chain).1) := by
        simpa using hvalidLimit
      exact ⟨_, by simp [extend, hopen, checkLimit_eq_ok_iff.2 hnested.of_append]; rfl⟩
  | limiter side =>
    have hparts : ∃ main, branch.closedParts = .ok main ∧
        ValidParts (main ++ [.limiter side none]) := by
      cases hopen : branch.openLimit with
      | none =>
        refine ⟨branch.main, closedParts_eq_ok_iff.2 (by rw [hopen]), ?_⟩
        simp only [assembled, hopen, gather] at hvalid
        have hsplit : ValidParts ((branch.main ++ [.limiter side (limitOf (gather chain).1)]) ++
            (gather chain).2) := by
          simpa using hvalid
        exact hsplit.of_append.replace_limit none
      | some other =>
        have hmem : .limiter other (limitOf branch.nested) ∈
            branch.assembled (.limiter side none :: chain) := by
          simp [assembled, hopen, gather]
        obtain ⟨limit, hlimit, -⟩ := Term.validLimit_of_ofParts h hmem
        obtain ⟨hne, rfl⟩ := limitOf_eq_some_iff.1 hlimit
        simp only [assembled, hopen, gather, List.append_nil, hlimit] at hvalid
        have hsplit : ValidParts (((branch.main ++ [.limiter other (some branch.nested)]) ++
            [.limiter side (limitOf (gather chain).1)]) ++ (gather chain).2) := by
          simpa using hvalid
        refine ⟨_, closedParts_eq_ok_iff.2 ?_, hsplit.of_append.replace_limit none⟩
        rw [hopen]
        exact ⟨hne, hsplit.of_append.of_append, rfl⟩
    obtain ⟨main, hmain, hvalidMain⟩ := hparts
    exact ⟨_, by simp [extend, hmain, checkParts_eq_ok_iff.2 hvalidMain]; rfl⟩

theorem finish_eq_ok_iff {term : Term} : branch.finish reader = .ok term ↔
    Term.ofParts (branch.assembled []) reader.now reader.defaultTime = .ok term := by
  unfold finish
  rw [bind_eq_ok_iff]
  cases hopen : branch.openLimit with
  | none =>
    have hassembled : branch.assembled [] = branch.main := by simp [assembled, hopen, gather]
    have hclosed : branch.closedParts = .ok branch.main := by simp [closedParts, hopen]
    rw [hassembled, hclosed]
    simp
  | some side =>
    have hmem : .limiter side (limitOf branch.nested) ∈ branch.assembled [] := by
      simp [assembled, hopen, gather]
    constructor
    · rintro ⟨parts, hparts, hterm⟩
      rw [closedParts_eq_ok_iff, hopen] at hparts
      obtain ⟨hne, -, rfl⟩ := hparts
      have hassembled : branch.assembled [] =
          branch.main ++ [.limiter side (some branch.nested)] := by
        simp [assembled, hopen, gather, limitOf, hne]
      rwa [hassembled]
    · intro hterm
      obtain ⟨limit, hlimit, -⟩ := Term.validLimit_of_ofParts hterm hmem
      obtain ⟨hne, rfl⟩ := limitOf_eq_some_iff.1 hlimit
      have hassembled : branch.assembled [] =
          branch.main ++ [.limiter side (some branch.nested)] := by
        simp [assembled, hopen, gather, limitOf, hne]
      rw [hassembled] at hterm
      refine ⟨_, closedParts_eq_ok_iff.2 ?_, hterm⟩
      rw [hopen]
      exact ⟨hne, (Term.ofParts_eq_ok_iff.1 hterm).2.1, rfl⟩

/-- The readings that begin with a branch and a part of the given kind. -/
def termsVia (reader : Reader) (branch : Branch) (kind : Kind) : List Term :=
  match Recognizer.ofKind kind reader.locale.grammar branch.rest with
  | .ok (some found) =>
    if found.rest.length < branch.rest.length then
      (chains reader.locale.grammar found.rest).filterMap fun chain =>
        (Term.ofParts (branch.assembled (found.part :: chain)) reader.now
          reader.defaultTime).toOption
    else []
  | _ => []

theorem terms_eq_flatMap (h : branch.rest ≠ []) :
    branch.terms reader = Recognizer.kinds.flatMap (branch.termsVia reader) := by
  rw [terms, chains, if_neg (by simpa using h), List.filterMap_flatMap]
  congr 1
  funext kind
  unfold termsVia
  split
  · rename_i found hfound
    split
    · rw [List.filterMap_map]
      rfl
    · rfl
  · rfl

/-- A part that a recognizer finds makes for the readings of the branch that goes on with it. -/
theorem termsVia_of_recognize {kind : Kind}
    {result : Option { found : Found // found.rest.length < branch.rest.length }}
    (h : branch.recognize reader.locale.grammar kind = .ok result) :
    branch.termsVia reader kind =
      match result with
      | some ⟨found, _⟩ => (chains reader.locale.grammar found.rest).filterMap fun chain =>
          (Term.ofParts (branch.assembled (found.part :: chain)) reader.now
            reader.defaultTime).toOption
      | none => [] := by
  obtain ⟨answer, hanswer, h⟩ := bind_eq_ok_iff.1 h
  unfold termsVia
  rw [hanswer]
  cases answer with
  | none =>
    obtain rfl := Except.ok.inj h
    rfl
  | some found =>
    simp only at h ⊢
    split at h
    · rename_i hlt
      obtain rfl := Except.ok.inj h
      rw [if_pos hlt]
    · rename_i hlt
      obtain rfl := Except.ok.inj h
      rw [if_neg hlt]

theorem recognized_of_recognize {locale : Locale} {kind : Kind}
    {found : { found : Found // found.rest.length < branch.rest.length }}
    (h : branch.recognize locale.grammar kind = .ok (some found)) :
    found.val.part.Recognized ∧ found.val.rest <:+ branch.rest := by
  obtain ⟨answer, hanswer, h⟩ := bind_eq_ok_iff.1 h
  cases answer with
  | none => exact absurd h nofun
  | some other =>
    simp only at h
    split at h
    · obtain rfl := Option.some.inj (Except.ok.inj h)
      obtain ⟨hpart, -, hrest⟩ := Recognizer.of_ofKind hanswer
      exact ⟨hpart, hrest⟩
    · exact absurd h nofun

/-- The branches that an exploration enters come to the readings that begin with the branch. -/
theorem flatMap_terms_exploreKinds {text : List Char} {recognized : Bool} {kinds : List Kind}
    (h : (branch.exploreKinds reader.locale.grammar text recognized kinds).failure = none) :
    (branch.exploreKinds reader.locale.grammar text recognized kinds).children.flatMap
      (terms reader) = kinds.flatMap (branch.termsVia reader) := by
  induction kinds generalizing recognized with
  | nil => rfl
  | cons kind kinds ih =>
    rw [exploreKinds] at h ⊢
    rw [List.flatMap_cons]
    cases hanswer : branch.recognize reader.locale.grammar kind with
    | error failure => simp [hanswer] at h
    | ok answer =>
      rw [termsVia_of_recognize hanswer]
      cases answer with
      | none =>
        simp only [hanswer] at h ⊢
        exact ih h
      | some found =>
        obtain ⟨hfound, -⟩ := recognized_of_recognize hanswer
        simp only [hanswer] at h ⊢
        cases hextend : branch.extend found.val with
        | ok child =>
          simp only [hextend] at h ⊢
          rw [h, ← ih h]
          simp only [Option.isSome_none, Bool.false_eq_true, if_false, List.flatMap_cons]
          congr 1
          simp only [terms, rest_of_extend hextend, assembled_of_extend hextend]
        | error failure =>
          cases failure with
          | expression error =>
            simp only [hextend] at h ⊢
            rw [ih h, List.filterMap_eq_nil_iff.2, List.nil_append]
            intro chain _
            cases hterm : Term.ofParts (branch.assembled (found.val.part :: chain)) reader.now
                reader.defaultTime with
            | ok term =>
              obtain ⟨child, hchild⟩ := exists_extend hfound hterm
              simp [hextend] at hchild
            | error failure => rfl
          | _ => simp [hextend] at h

theorem terms_of_finish (hrest : branch.rest.isEmpty = true) :
    branch.terms reader = (branch.finish reader).toOption.toList := by
  rw [terms, chains, if_pos hrest]
  cases hfinish : branch.finish reader with
  | ok term => simp [finish_eq_ok_iff.1 hfinish, Except.toOption]
  | error failure =>
    have hnone : (Term.ofParts (branch.assembled []) reader.now reader.defaultTime).toOption
        = none := by
      cases hterm : Term.ofParts (branch.assembled []) reader.now reader.defaultTime with
      | ok term => simp [finish_eq_ok_iff.2 hterm] at hfinish
      | error failure => rfl
    refine List.filterMap_eq_nil_iff.2 fun chain hchain => ?_
    rw [List.mem_singleton.1 hchain, hnone]

theorem readings_exploreKinds {grammar : Grammar} {text : List Char} {recognized : Bool}
    {kinds : List Kind} : (branch.exploreKinds grammar text recognized kinds).readings = [] := by
  induction kinds generalizing recognized with
  | nil => rfl
  | cons kind kinds ih =>
    rw [exploreKinds]
    split
    · rfl
    · exact ih
    · split
      · exact ih
      · rfl
      · exact ih

theorem explore_of_isEmpty (reader : Reader) (text : List Char)
    (hrest : branch.rest.isEmpty = true) :
    (branch.explore reader text).readings = branch.terms reader ∧
      (branch.explore reader text).children = [] := by
  unfold explore
  rw [if_pos hrest, terms_of_finish hrest]
  cases branch.finish reader with
  | ok term => exact ⟨rfl, rfl⟩
  | error failure => cases failure <;> exact ⟨rfl, rfl⟩

section Range

/-- The parts of the branch have numbers that exist. -/
structure InRange (branch : Branch) : Prop where
  main : ∀ p ∈ branch.main, p.InRange
  nested : ∀ p ∈ branch.nested, p.InRange

theorem inRange_start (text : List Char) : (start text).InRange := ⟨nofun, nofun⟩

theorem inRange_append {parts : List Part} {p : Part} (h : ∀ q ∈ parts, q.InRange)
    (hp : p.InRange) : ∀ q ∈ parts ++ [p], q.InRange := by
  intro q hq
  rcases List.mem_append.1 hq with hq | hq
  · exact h q hq
  · exact List.mem_singleton.1 hq ▸ hp

theorem InRange.closedParts (h : branch.InRange) :
    OnlyRefuses branch.closedParts ∧
      ∀ parts, branch.closedParts = .ok parts → ∀ p ∈ parts, p.InRange := by
  unfold Branch.closedParts
  cases hopen : branch.openLimit with
  | none =>
    refine ⟨onlyRefuses_ok _, fun parts hparts => ?_⟩
    obtain rfl := Except.ok.inj hparts
    exact h.main
  | some side =>
    have hlimit : (Part.limiter side (some branch.nested)).InRange := .limit h.nested
    have hparts := inRange_append h.main hlimit
    constructor
    · simp only [refuse_bind]
      exact .ite (fun _ => onlyRefuses_refuse (by rintro ⟨⟩)) fun _ =>
        (onlyRefuses_checkParts hparts).bind fun _ _ => onlyRefuses_ok _
    · intro parts hclosed
      simp only [refuse_bind, ite_refuse_eq_ok_iff, check_bind_eq_ok_iff, pure_eq_ok] at hclosed
      obtain rfl := Except.ok.inj hclosed.2.2
      exact hparts

/-- A branch in range goes on with a part that has been recognized or refuses it, and stays in
range. -/
theorem InRange.extend (h : branch.InRange) (hfound : found.part.Recognized) :
    OnlyRefuses (branch.extend found) ∧
      ∀ child, branch.extend found = .ok child → child.InRange := by
  have hpart := hfound.inRange
  unfold Branch.extend
  split
  · obtain ⟨hclosed, hmain⟩ := h.closedParts
    refine ⟨hclosed.bind fun main hmainOk => ?_, fun child hchild => ?_⟩
    · exact (onlyRefuses_checkParts (inRange_append (hmain main hmainOk) hpart)).bind
        fun _ _ => onlyRefuses_ok _
    · obtain ⟨main, hmainOk, hchild⟩ := bind_eq_ok_iff.1 hchild
      obtain ⟨-, hchild⟩ := check_bind_eq_ok_iff.1 hchild
      obtain rfl := Except.ok.inj hchild
      exact ⟨hmain main hmainOk, nofun⟩
  · have hnested := inRange_append h.nested hpart
    have hmain := inRange_append h.main hpart
    split
    · refine ⟨(onlyRefuses_checkLimit hnested).bind fun _ _ => onlyRefuses_ok _,
        fun child hchild => ?_⟩
      obtain ⟨-, hchild⟩ := check_bind_eq_ok_iff.1 hchild
      obtain rfl := Except.ok.inj hchild
      exact ⟨h.main, hnested⟩
    · refine ⟨(onlyRefuses_checkParts hmain).bind fun _ _ => onlyRefuses_ok _,
        fun child hchild => ?_⟩
      obtain ⟨-, hchild⟩ := check_bind_eq_ok_iff.1 hchild
      obtain rfl := Except.ok.inj hchild
      exact ⟨hmain, h.nested⟩

/-- A branch in range that has read everything is an expression or is refused. -/
theorem InRange.finish (h : branch.InRange) : OnlyRefuses (branch.finish reader) := by
  obtain ⟨hclosed, hparts⟩ := h.closedParts
  exact hclosed.bind fun parts hok => onlyRefuses_ofParts (hparts parts hok)

/-- In range, an exploration comes to its end unless a recognizer fails. -/
theorem InRange.failure_exploreKinds {text : List Char} {recognized : Bool} {kinds : List Kind}
    (h : branch.InRange)
    (hreads : ∀ kind, ∃ answer, Recognizer.ofKind kind reader.locale.grammar branch.rest
      = .ok answer) :
    (branch.exploreKinds reader.locale.grammar text recognized kinds).failure = none := by
  induction kinds generalizing recognized with
  | nil => rfl
  | cons kind kinds ih =>
    rw [exploreKinds]
    cases hanswer : branch.recognize reader.locale.grammar kind with
    | error failure =>
      obtain ⟨answer, hok⟩ := hreads kind
      simp only [recognize, hok, ok_bind] at hanswer
      cases answer with
      | none => cases hanswer
      | some found =>
        simp only at hanswer
        split at hanswer <;> cases hanswer
    | ok answer =>
      cases answer with
      | none => exact ih
      | some found =>
        have hextend := (h.extend (recognized_of_recognize hanswer).1).1
        simp only
        split
        · exact ih
        · rename_i failure hnot hfailed
          obtain ⟨error, rfl, -⟩ := hextend _ hfailed
          exact absurd rfl (hnot error)
        · exact ih

theorem InRange.of_mem_exploreKinds {locale : Locale} {text : List Char} {recognized : Bool}
    {kinds : List Kind} (h : branch.InRange) (hchild : child ∈
      (branch.exploreKinds locale.grammar text recognized kinds).children) :
    child.InRange ∧ child.rest <:+ branch.rest := by
  induction kinds generalizing recognized with
  | nil => exact absurd hchild List.not_mem_nil
  | cons kind kinds ih =>
    rw [exploreKinds] at hchild
    split at hchild
    · exact absurd hchild List.not_mem_nil
    · exact ih hchild
    · rename_i hanswer
      obtain ⟨hfound, hrest⟩ := recognized_of_recognize hanswer
      split at hchild
      · exact ih hchild
      · exact absurd hchild List.not_mem_nil
      · rename_i hextend
        dsimp only at hchild
        split at hchild
        · exact absurd hchild List.not_mem_nil
        · rcases List.mem_cons.1 hchild with rfl | hchild
          · exact ⟨(h.extend hfound).2 _ hextend, rest_of_extend hextend ▸ hrest⟩
          · exact ih hchild

/-- The branches that an exploration enters are in range and read further. -/
theorem InRange.of_mem_explore {text : List Char} (h : branch.InRange)
    (hchild : child ∈ (branch.explore reader text).children) :
    child.InRange ∧ child.rest <:+ branch.rest := by
  unfold explore at hchild
  split at hchild
  · split at hchild <;> exact absurd hchild List.not_mem_nil
  · exact h.of_mem_exploreKinds hchild

end Range

/-- An exploration that comes to its end has had an answer from every recognizer. -/
theorem answers_of_failure_exploreKinds {grammar : Grammar} {text : List Char} {recognized : Bool}
    {kinds : List Kind}
    (h : (branch.exploreKinds grammar text recognized kinds).failure = none) :
    ∀ kind ∈ kinds, ∃ answer, Recognizer.ofKind kind grammar branch.rest = .ok answer := by
  induction kinds generalizing recognized with
  | nil => exact fun kind hkind => absurd hkind List.not_mem_nil
  | cons kind kinds ih =>
    rw [exploreKinds] at h
    have hanswer {result : Option { found : Found // found.rest.length < branch.rest.length }}
        (hok : branch.recognize grammar kind = .ok result) :
        ∃ answer, Recognizer.ofKind kind grammar branch.rest = .ok answer := by
      obtain ⟨answer, hanswer, -⟩ := bind_eq_ok_iff.1 hok
      exact ⟨answer, hanswer⟩
    split at h
    · cases h
    · rename_i hok
      exact List.forall_mem_cons.2 ⟨hanswer hok, ih h⟩
    · rename_i hok
      refine List.forall_mem_cons.2 ⟨hanswer hok, ?_⟩
      split at h
      · exact ih h
      · cases h
      · exact ih h

/-- In range, an exploration comes to its end if, and only if, no recognizer fails on the rest. At
the end of the text none is asked. -/
theorem InRange.failure_explore_iff {text : List Char} (h : branch.InRange) :
    (branch.explore reader text).failure = none ↔ (branch.rest ≠ [] →
      ∀ kind, ∃ answer, Recognizer.ofKind kind reader.locale.grammar branch.rest = .ok answer) := by
  unfold explore
  by_cases hrest : branch.rest = []
  · rw [if_pos (by simp [hrest])]
    refine ⟨fun _ hne => absurd hrest hne, fun _ => ?_⟩
    split
    · rfl
    · rfl
    · rename_i failure hne hfailed
      obtain ⟨error, rfl, -⟩ := h.finish failure hfailed
      exact absurd rfl (hne error)
  · rw [if_neg (by simpa using hrest)]
    constructor
    · intro hnone _ kind
      exact answers_of_failure_exploreKinds hnone kind (Recognizer.mem_kinds kind)
    · intro hanswers
      exact h.failure_exploreKinds (hanswers hrest)

/-- In range, an exploration of a readable rest comes to its end. -/
theorem InRange.failure_explore {text : List Char} (h : branch.InRange)
    (hreadable : Readable reader.locale.grammar branch.rest) :
    (branch.explore reader text).failure = none :=
  h.failure_explore_iff.2 fun _ => hreadable _ (List.suffix_refl _)

/-- What an exploration finds that comes to its end, and what the branches come to that it enters,
are the readings that begin with the branch. -/
theorem terms_explore_of_failure {text : List Char}
    (h : (branch.explore reader text).failure = none) :
    (branch.explore reader text).readings ++ (branch.explore reader text).children.flatMap
      (terms reader) = branch.terms reader := by
  by_cases hrest : branch.rest.isEmpty = true
  · obtain ⟨hreadings, hchildren⟩ := explore_of_isEmpty reader text hrest
    rw [hreadings, hchildren, List.flatMap_nil, List.append_nil]
  · unfold explore at h ⊢
    rw [if_neg hrest] at h ⊢
    rw [readings_exploreKinds, flatMap_terms_exploreKinds h, List.nil_append,
      terms_eq_flatMap (by simpa using hrest)]

/-- An exploration of a readable rest comes to its end. -/
theorem terms_explore {text : List Char} (h : branch.InRange)
    (hreadable : Readable reader.locale.grammar branch.rest) :
    (branch.explore reader text).readings ++ (branch.explore reader text).children.flatMap
      (terms reader) = branch.terms reader :=
  terms_explore_of_failure (h.failure_explore hreadable)

theorem children_exploreKinds_of_failure {grammar : Grammar} {text : List Char}
    {recognized : Bool} {kinds : List Kind}
    (h : (branch.exploreKinds grammar text recognized kinds).failure ≠ none) :
    (branch.exploreKinds grammar text recognized kinds).children = [] := by
  induction kinds generalizing recognized with
  | nil => rfl
  | cons kind kinds ih =>
    rw [exploreKinds] at h ⊢
    cases hanswer : branch.recognize grammar kind with
    | error failure => rfl
    | ok answer =>
      rw [hanswer] at h
      cases answer with
      | none => exact ih h
      | some found =>
        simp only at h ⊢
        cases hextend : branch.extend found.val with
        | ok child =>
          simp only [hextend] at h ⊢
          rw [if_pos (Option.isSome_iff_ne_none.2 h)]
        | error failure =>
          cases failure with
          | expression error =>
            simp only [hextend] at h ⊢
            exact ih h
          | _ => rfl

/-- An exploration never comes to anything but readings that begin with the branch. -/
theorem terms_explore_subset {text : List Char} :
    (branch.explore reader text).readings ++ (branch.explore reader text).children.flatMap
      (terms reader) ⊆ branch.terms reader := by
  by_cases hrest : branch.rest.isEmpty = true
  · obtain ⟨hreadings, hchildren⟩ := explore_of_isEmpty reader text hrest
    rw [hreadings, hchildren, List.flatMap_nil, List.append_nil]
    exact List.Subset.refl _
  · unfold explore
    rw [if_neg hrest, readings_exploreKinds, List.nil_append,
      terms_eq_flatMap (by simpa using hrest)]
    by_cases hfailure : (branch.exploreKinds reader.locale.grammar text false
        Recognizer.kinds).failure = none
    · rw [flatMap_terms_exploreKinds hfailure]
      exact List.Subset.refl _
    · rw [children_exploreKinds_of_failure hfailure]
      exact List.nil_subset _

end Branch

end TimePhrase
