import TimePhrase.Proofs.Reading.InvertedTime

/-!
# Text that is known up to its digits

Where all characters of a text are known but its digits, tracing tells with which patterns it
begins, and so which parts can be found in it and what is left behind them.
-/

namespace TimePhrase

open Text (canonical digitsValue plainDigits sameLetter)

namespace Recognizer

variable {α : Type} {locale : Locale} {text chars : List Char} {signs : List Sign}
  {m : Match Field} {t : Trace Field}

/-- The text consists of the given signs, up to the choice between characters that count as the
same. -/
structure Spells (chars : List Char) (signs : List Sign) (text : List Char) : Prop where
  digits : ∀ c ∈ chars, c ∈ plainDigits
  canonical : text.map canonical = fill (digitsAt chars) [] signs

/-- The number that signs stand for. -/
def valueOf (chars : List Char) (signs : List Sign) : Nat :=
  digitsValue (signs.map (Sign.fill (digitsAt chars)))

theorem Agrees.shortNumber? {tail : List Char} (h : Agrees chars tail m t) (field : Field) :
    shortNumber? m field = (t.group? field).map (valueOf chars) := by
  have hgroup := congrArg (Option.map digitsValue) (h.group field)
  simp only [Option.map_map, Function.comp_def, Text.digitsValue_map_canonical] at hgroup
  exact hgroup

/-- The patterns that a text begins with, each with its first trace, if they are known. -/
def heads? (signs : List Sign) : List (Pattern Field × α) → Option (List (α × Trace Field))
  | [] => some []
  | (p, info) :: rest => do
    let found ← p.traces? sameLetter false ⟨signs, []⟩
    return (found.head?.map fun t => (info, t)).toList ++ (← heads? signs rest)

/-- The patterns that a text begins with are known, and a condition holds of each. -/
def headsAll (signs : List Sign) (patterns : List (Pattern Field × α))
    (condition : α → Trace Field → Bool) : Bool :=
  (heads? signs patterns).any (·.all fun head => condition head.1 head.2)

namespace Spells

theorem length_eq (h : Spells chars signs text) : text.length = signs.length := by
  simpa [fill] using congrArg List.length h.canonical

theorem rest_of_agrees (h : Spells chars signs text) (hagrees : Agrees chars [] m t) :
    Spells chars t.rest m.rest := ⟨h.digits, hagrees.rest⟩

theorem begins_agrees (h : Spells chars signs text) {p : Pattern Field}
    (hp : p.namesNoDigit = true) {found : List (Trace Field)}
    (htraces : p.traces? sameLetter false ⟨signs, []⟩ = some found) :
    Option.Rel (Agrees chars []) (begins p text) found.head? :=
  Recognizer.begins_agrees hp (.inr rfl) h.digits h.canonical htraces

/-- A pattern that begins the text has a head that agrees with the match. -/
theorem exists_agrees (h : Spells chars signs text) {p : Pattern Field}
    (hp : p.namesNoDigit = true) {found : List (Trace Field)}
    (htraces : p.traces? sameLetter false ⟨signs, []⟩ = some found)
    (hm : begins p text = some m) : ∃ t, found.head? = some t ∧ Agrees chars [] m t := by
  have hagrees := h.begins_agrees hp htraces
  rw [hm] at hagrees
  generalize found.head? = head at hagrees
  cases hagrees with
  | some hagrees => exact ⟨_, rfl, hagrees⟩

theorem exists_head (h : Spells chars signs text) {patterns : List (Pattern Field × α)}
    (hnames : ∀ x ∈ patterns, x.1.namesNoDigit = true) {heads : List (α × Trace Field)}
    (hheads : heads? signs patterns = some heads) {x : Pattern Field × α} (hx : x ∈ patterns)
    (hm : begins x.1 text = some m) : ∃ t, (x.2, t) ∈ heads ∧ Agrees chars [] m t := by
  induction patterns generalizing heads with
  | nil => cases hx
  | cons first rest ih =>
    obtain ⟨p, info⟩ := first
    obtain ⟨found, hfound, hheads⟩ := Option.bind_eq_some_iff.1 hheads
    obtain ⟨others, hothers, hheads⟩ := Option.bind_eq_some_iff.1 hheads
    obtain rfl := Option.some.inj hheads
    obtain ⟨hfirst, hrest⟩ := List.forall_mem_cons.1 hnames
    rcases List.mem_cons.1 hx with rfl | hx
    · obtain ⟨t, hhead, hagrees⟩ := h.exists_agrees hfirst hfound hm
      exact ⟨t, by simp [hhead], hagrees⟩
    · obtain ⟨t, ht, hagrees⟩ := ih hrest hothers hx
      exact ⟨t, List.mem_append_right _ ht, hagrees⟩

/-- A part that is found by one of the patterns belongs to a head for which the condition holds. -/
theorem of_firstPart (h : Spells chars signs text) {patterns : List (Pattern Field × α)}
    (hnames : ∀ x ∈ patterns, x.1.namesNoDigit = true) {condition : α → Trace Field → Bool}
    (hheads : headsAll signs patterns condition = true)
    {read : α → Match Field → Except Failure (Option Part)} {found : Found}
    (hfound : firstPart patterns text read = .ok (some found)) :
    ∃ info t m, condition info t = true ∧ Agrees chars [] m t ∧
      read info m = .ok (some found.part) ∧ Spells chars t.rest found.rest := by
  obtain ⟨heads, hheads, hall⟩ := (Option.any_eq_true _ _).1 hheads
  obtain ⟨x, hx, m, hm, hread, hrest⟩ := Recognizer.of_firstPart hfound
  obtain ⟨t, ht, hagrees⟩ := h.exists_head hnames hheads hx hm
  refine ⟨x.2, t, m, List.all_eq_true.1 hall _ ht, hagrees, hread, ?_⟩
  rw [← hrest]
  exact h.rest_of_agrees hagrees

/-- Where what is read from a match depends on its trace only, the part is found that is read from
the first head that has one. -/
theorem firstPart_eq (h : Spells chars signs text) {patterns : List (Pattern Field × α)}
    (hnames : ∀ x ∈ patterns, x.1.namesNoDigit = true) {heads : List (α × Trace Field)}
    (hheads : heads? signs patterns = some heads)
    (read : α → Match Field → Except Failure (Option Part)) (value : α → Trace Field → Option Part)
    (hread : ∀ head ∈ heads, ∀ m, Agrees chars [] m head.2 →
      read head.1 m = .ok (value head.1 head.2)) :
    ∃ answer, firstPart patterns text read = .ok answer ∧
      Option.Rel (fun found head => found.part = head.1 ∧ Spells chars head.2 found.rest) answer
        (heads.findSome? fun head =>
          (value head.1 head.2).map fun part => (part, head.2.rest)) := by
  induction patterns generalizing heads with
  | nil =>
    obtain rfl := Option.some.inj hheads
    exact ⟨none, rfl, .none⟩
  | cons first rest ih =>
    obtain ⟨p, info⟩ := first
    obtain ⟨found, hfound, hheads⟩ := Option.bind_eq_some_iff.1 hheads
    obtain ⟨others, hothers, hheads⟩ := Option.bind_eq_some_iff.1 hheads
    obtain rfl := Option.some.inj hheads
    obtain ⟨hfirst, hrest⟩ := List.forall_mem_cons.1 hnames
    obtain ⟨answer, hanswer, hrel⟩ := ih hrest hothers fun head hhead =>
      hread head (List.mem_append_right _ hhead)
    unfold firstPart at hanswer ⊢
    rw [firstRead]
    cases hm : begins p text with
    | none =>
      have hagrees := h.begins_agrees hfirst hfound
      rw [hm] at hagrees
      have hhead : found.head? = none := by
        generalize found.head? = head at hagrees
        cases hagrees
        rfl
      exact ⟨answer, hanswer, by simpa [hhead] using hrel⟩
    | some m =>
      obtain ⟨t, hhead, hagrees⟩ := h.exists_agrees hfirst hfound hm
      rw [hhead] at hread ⊢
      simp only [hread (info, t) (by simp) m hagrees, ok_bind]
      cases hvalue : value info t with
      | none => exact ⟨answer, hanswer, by simpa [hvalue] using hrel⟩
      | some part =>
        refine ⟨some ⟨part, m.rest⟩, rfl, ?_⟩
        simp only [Option.map_some, Option.toList_some, List.singleton_append,
          List.findSome?_cons, hvalue]
        exact .some ⟨rfl, h.rest_of_agrees hagrees⟩

end Spells

section Kinds

/-- The patterns by which a part of some kind is found name no digits. -/
theorem namesNoDigit_patternsOf (locale : Locale) (kind : Kind) {α : Type}
    {patterns : List (Pattern Field × α)}
    (hpatterns : patterns.map (·.1) = patternsOf locale.grammar kind) :
    ∀ x ∈ patterns, x.1.namesNoDigit = true := by
  intro x hx
  have hmem : x.1 ∈ patterns.map (·.1) := List.mem_map_of_mem hx
  rw [hpatterns] at hmem
  exact (namesNoDigit_grammar locale).2 _ (patternsOf_subset _ kind hmem)

theorem map_times (g : Grammar) : (g.times.map (·, ())).map (·.1) = patternsOf g .time := by
  simp [patternsOf, Function.comp_def]

/-- Where no pattern is known to begin the text, no part is found. -/
theorem Spells.not_firstPart (h : Spells chars signs text) (locale : Locale) (kind : Kind)
    {α : Type} {patterns : List (Pattern Field × α)}
    (hpatterns : patterns.map (·.1) = patternsOf locale.grammar kind)
    (hheads : headsAll signs patterns (fun _ _ => false) = true)
    {read : α → Match Field → Except Failure (Option Part)} :
    firstPart patterns text read ≠ .ok (some found) := by
  intro hfound
  obtain ⟨_, _, _, hfalse, -⟩ :=
    h.of_firstPart (namesNoDigit_patternsOf locale kind hpatterns) hheads hfound
  cases hfalse

end Kinds

section Quiet

/-- The kinds of parts that may begin with a number and nothing behind it but a sign. -/
def numberKinds : List Kind := [.time, .date, .monthDay, .year]

/-- The text is begun with no part but one of those that may begin with a number. -/
def Quiet (g : Grammar) (signs : List Sign) : Prop :=
  (∀ kind ∈ kinds, kind ∉ numberKinds → ∀ p ∈ patternsOf g kind,
    p.traces? sameLetter false ⟨signs, []⟩ = some []) ∧
  (g.onceSpan.1.traces? sameLetter false ⟨signs, []⟩).any (fun found =>
    found.head?.all (·.rest = signs)) = true

instance (g : Grammar) (signs : List Sign) : Decidable (Quiet g signs) :=
  inferInstanceAs (Decidable (_ ∧ _))

theorem Spells.begins_eq_none (h : Spells chars signs text) {p : Pattern Field}
    (hp : p.namesNoDigit = true) (htraces : p.traces? sameLetter false ⟨signs, []⟩ = some []) :
    begins p text = none := by
  have hagrees := h.begins_agrees hp htraces
  generalize begins p text = result at hagrees
  cases hagrees
  rfl

theorem Spells.ofKind_eq_none (h : Spells chars signs text) (hquiet : Quiet locale.grammar signs)
    {kind : Kind} (hkind : kind ∉ numberKinds) : ofKind kind locale.grammar text = .ok none := by
  obtain ⟨htraces, hopening⟩ := hquiet
  obtain ⟨hnamesOnce, hnames⟩ := namesNoDigit_grammar locale
  refine ofKind_eq_none_of (fun p hp => ?_) fun m hm => ?_
  · exact h.begins_eq_none (hnames p (patternsOf_subset _ kind hp))
      (htraces kind (mem_kinds kind) hkind p hp)
  · obtain ⟨found, hfound, hall⟩ := (Option.any_eq_true _ _).1 hopening
    obtain ⟨t, hhead, hagrees⟩ := h.exists_agrees hnamesOnce hfound hm
    rw [hhead] at hall
    have hrest : t.rest = signs := by simpa using hall
    have hitem : locale.grammar.onceSpan.2 ∈ patternsOf locale.grammar .span := List.mem_cons_self
    exact (hrest ▸ h.rest_of_agrees hagrees).begins_eq_none
      (hnames _ (patternsOf_subset _ .span hitem))
      (htraces .span (mem_kinds .span) (by decide) _ hitem)

/-- A chain of such a text begins with one of these parts. -/
theorem Spells.of_mem_chains (h : Spells chars signs text) (hquiet : Quiet locale.grammar signs)
    (hne : signs ≠ []) {chain : List Part} (hchain : chain ∈ chains locale.grammar text) :
    ∃ kind ∈ numberKinds, ∃ found rest, ofKind kind locale.grammar text = .ok (some found) ∧
      rest ∈ chains locale.grammar found.rest ∧ chain = found.part :: rest := by
  obtain ⟨rfl, -⟩ | ⟨kind, found, rest, hfound, -, hrest, rfl⟩ := mem_chains_iff.1 hchain
  · exact absurd (List.length_eq_zero_iff.1 h.length_eq.symm) hne
  · refine ⟨kind, ?_, found, rest, hfound, hrest, rfl⟩
    by_contra hkind
    rw [h.ofKind_eq_none hquiet hkind] at hfound
    cases hfound

end Quiet

end Recognizer

end TimePhrase
