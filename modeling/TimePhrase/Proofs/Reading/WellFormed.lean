import TimePhrase.Proofs.Part.Recurrence
import TimePhrase.Proofs.Reading.Tally

/-!
# The form of readings

Every reading is made after the same rules. First stands content in which no unit is settled twice
and nothing repeats beside a fixed date. Then come the limits of a repetition, at most one on
either side, each of which is made of such content and names one instant. The rules hold of
whatever is reported about a text, in whatever order its branches are looked at.
-/

namespace TimePhrase

/-- The rules for the content of an expression or of a limit. -/
structure WellFormedContent (content : List Content) : Prop where
  nonempty : content ≠ []
  scopes : content.Pairwise fun c d => c.scope.Disjoint d.scope
  repetition : ¬ (content.any Content.isLooped = true ∧ content.any Content.isAbsolute = true)
  /-- Beside a fixed date there are only points, and none of them is a weekday. -/
  fixedDate : content.any Content.isAbsolute = true →
    ∀ c ∈ content, ∃ p, c = .point p ∧ p.kind ≠ .weekday
  /-- The numbers of points exist. The counts of a span are of different units, from coarse to
  fine. -/
  inRange : ∀ c ∈ content, c.InRange
  /-- A date that repeats has no year. -/
  dates : ∀ day month year, .point (.date day month year true) ∈ content → year = none

/-- The parts of an expression: its content, and then a limiter with content for each limit. -/
def partsOf (content : List Content) (limits : List (Side × List Content)) : List Part :=
  content.map .content ++ limits.map fun limit => .limiter limit.1 (some (limit.2.map .content))

/-- The rules for an expression with the given limits, which are resolved at the given instant. -/
structure Term.WellFormedWith (term : Term) (limits : List (Side × List Content)) (now : DateTime)
    (defaultTime : TimeOfDay) : Prop where
  content : WellFormedContent term.content
  /-- The limits follow the content. -/
  parts : term.parts = partsOf term.content limits
  sides : (limits.map (·.1)).Nodup
  repeats : limits ≠ [] → term.isLooped = true
  eachLimit : ∀ limit ∈ limits,
    WellFormedContent limit.2 ∧ ∀ c ∈ limit.2, c.isLooped = false
  /-- The lower limit lies before the upper one. -/
  order : ∀ first last : List Content, (Side.lower, first) ∈ limits → (Side.upper, last) ∈ limits →
    ∃ lower upper, Term.instant ⟨first.map .content⟩ now defaultTime = .ok lower ∧
      Term.instant ⟨last.map .content⟩ now defaultTime = .ok upper ∧ lower < upper

/-- The rules for an expression, whose limits are resolved at the given instant. -/
def Term.WellFormed (term : Term) (now : DateTime) (defaultTime : TimeOfDay) : Prop :=
  ∃ limits, term.WellFormedWith limits now defaultTime

/-- Content that has been recognized is in range and can be put into words. -/
theorem Part.Recognized.of_content {c : Content} (h : (Part.content c).Recognized) :
    c.InRange ∧ c.Expressible := by
  cases h with
  | content hrange hwords => exact ⟨hrange, hwords⟩

/-- What is gathered from a chain is content, and limiters with content behind them. -/
theorem gather_eq_map {chain : List Part} (h : ∀ p ∈ chain, p.Recognized) :
    ∃ (content : List Content) (limits : List (Side × List Content)),
      gather chain = (content.map .content,
          limits.map fun limit => .limiter limit.1 (limitOf (limit.2.map .content))) ∧
        (∀ c ∈ content, c.InRange ∧ c.Expressible) ∧
          ∀ limit ∈ limits, ∀ c ∈ limit.2, c.InRange ∧ c.Expressible := by
  induction chain with
  | nil => exact ⟨[], [], rfl, nofun, nofun⟩
  | cons p rest ih =>
    obtain ⟨hp, hrest⟩ := List.forall_mem_cons.1 h
    obtain ⟨content, limits, hgather, hcontent, hlimits⟩ := ih hrest
    cases p with
    | content c =>
      refine ⟨c :: content, limits, ?_, ?_, hlimits⟩
      · rw [gather, hgather, List.map_cons]
      · exact List.forall_mem_cons.2 ⟨hp.of_content, hcontent⟩
    | limiter side limit =>
      refine ⟨[], (side, content) :: limits, ?_, nofun, ?_⟩
      · rw [gather, hgather, List.map_cons, List.map_nil]
      · exact List.forall_mem_cons.2 ⟨hcontent, hlimits⟩

/-- Valid parts with values from a text have content after the rules. -/
theorem ValidParts.wellFormedContent {parts : List Part} (h : ValidParts parts)
    (hne : contents parts ≠ [])
    (hvalues : ∀ c ∈ contents parts, c.InRange ∧ c.Expressible) :
    WellFormedContent (contents parts) where
  nonempty := hne
  scopes := h.scopes
  repetition := by
    rintro ⟨hlooped, habsolute⟩
    obtain ⟨c, hc, hrepeats⟩ := List.any_eq_true.1 hlooped
    have honce := h.repetition (List.any_eq_true.1 habsolute) c hc
    rw [honce] at hrepeats
    cases hrepeats
  fixedDate := by
    intro habsolute c hc
    have hfits := h.fixedDate (List.any_eq_true.1 habsolute) c hc
    cases c with
    | span s => cases hfits
    | point p =>
      refine ⟨p, rfl, ?_⟩
      intro hkind
      obtain ⟨n, looped, rfl⟩ := Point.eq_weekday_of_kind hkind
      cases hfits
  inRange := fun c hc => (hvalues c hc).1
  dates := by
    intro day month year hdate
    have hwords := (hvalues _ hdate).2
    cases year with
    | none => rfl
    | some year => cases hwords

section Limits

variable {term : Term} {now : DateTime} {defaultTime : TimeOfDay}

/-- The bounds of a term are the instants on both sides. -/
theorem Term.bounds_eq_ok_iff {bounds : Bounds} : term.bounds now defaultTime = .ok bounds ↔
    term.boundOn now defaultTime .lower = .ok bounds.lower ∧
      term.boundOn now defaultTime .upper = .ok bounds.upper := by
  rw [Term.bounds_eq, bind_eq_ok_iff]
  constructor
  · rintro ⟨lower, hlower, hbounds⟩
    obtain ⟨upper, hupper, hbounds⟩ := bind_eq_ok_iff.1 hbounds
    obtain rfl := Except.ok.inj hbounds
    exact ⟨hlower, hupper⟩
  · rintro ⟨hlower, hupper⟩
    exact ⟨bounds.lower, hlower, bind_eq_ok_iff.2 ⟨bounds.upper, hupper, rfl⟩⟩

/-- The only limit on a side stands for the instant on that side. -/
theorem Term.exists_instant {side : Side} {limit : List Part} {bound : Option DateTime}
    (hsides : (term.parts.filterMap Part.side?).Nodup)
    (hmem : .limiter side (some limit) ∈ term.parts)
    (hbound : term.boundOn now defaultTime side = .ok bound) :
    ∃ t, Term.instant ⟨limit⟩ now defaultTime = .ok t ∧ bound = some t := by
  have hlimiter : term.limiter? side = some (.limiter side (some limit)) :=
    find?_limiter hsides hmem
  have hlimit : term.limit? side = some ⟨limit⟩ := by
    rw [Term.limit?, hlimiter]
    rfl
  simp only [Term.boundOn, hlimit] at hbound
  cases hinstant : Term.instant ⟨limit⟩ now defaultTime with
  | error failure =>
    rw [hinstant] at hbound
    cases hbound
  | ok t =>
    rw [hinstant] at hbound
    exact ⟨t, rfl, (Except.ok.inj hbound).symm⟩

end Limits

section Readings

variable {reader : Reader} {term : Term} {now : DateTime} {defaultTime : TimeOfDay}

theorem contents_partsOf (content : List Content) (limits : List (Side × List Content)) :
    contents (partsOf content limits) = content := by
  rw [partsOf, contents_append, contents_map_content, contents_eq_nil_of_limiters, List.append_nil]
  intro p hp
  obtain ⟨limit, -, rfl⟩ := List.mem_map.1 hp
  rfl

theorem sides_partsOf (content : List Content) (limits : List (Side × List Content)) :
    (partsOf content limits).filterMap Part.side? = limits.map (·.1) := by
  have hcontent : (content.map Part.content).filterMap Part.side? = [] := by
    rw [List.filterMap_eq_nil_iff]
    intro p hp
    obtain ⟨c, -, rfl⟩ := List.mem_map.1 hp
    rfl
  rw [partsOf, List.filterMap_append, hcontent, List.nil_append, List.filterMap_map]
  exact List.filterMap_eq_map_iff_forall_eq_some.2 fun _ _ => rfl

theorem mem_partsOf {content : List Content} {limits : List (Side × List Content)}
    {limit : Side × List Content} (h : limit ∈ limits) :
    .limiter limit.1 (some (limit.2.map .content)) ∈ partsOf content limits :=
  List.mem_append_right _ (List.mem_map_of_mem h)

/-- The parts of a chain that make an expression are recognized content and limits of such. -/
theorem exists_assemble_eq {chain : List Part} (h : ∀ p ∈ chain, p.Recognized)
    (hok : Term.ofParts (assemble chain) now defaultTime = .ok term) :
    ∃ content limits, assemble chain = partsOf content limits ∧
      (∀ c ∈ content, c.InRange ∧ c.Expressible) ∧
      ∀ limit ∈ limits, limit.2 ≠ [] ∧ ∀ c ∈ limit.2, c.InRange ∧ c.Expressible := by
  obtain ⟨content, limits, hgather, hcontent, hlimits⟩ := gather_eq_map h
  have hassemble : assemble chain = content.map .content ++
      limits.map fun limit => .limiter limit.1 (limitOf (limit.2.map .content)) := by
    rw [assemble, hgather]
  -- no limiter of an expression stands without a limit
  have hlimit : ∀ limit ∈ limits, limit.2.map Part.content ≠ [] := by
    intro limit hmem
    have hlimiter : .limiter limit.1 (limitOf (limit.2.map .content)) ∈ assemble chain := by
      rw [hassemble]
      exact List.mem_append_right _ (List.mem_map_of_mem hmem)
    obtain ⟨parts, hparts, -⟩ := Term.validLimit_of_ofParts hok hlimiter
    exact (limitOf_eq_some_iff.1 hparts).1
  refine ⟨content, limits, ?_, hcontent, fun limit hmem => ⟨?_, hlimits limit hmem⟩⟩
  · rw [hassemble, partsOf]
    refine congrArg _ (List.map_congr_left fun limit hmem => ?_)
    rw [limitOf_eq_some_iff.2 ⟨hlimit limit hmem, rfl⟩]
  · exact fun hnil => hlimit limit hmem (by rw [hnil]; rfl)

/-- An expression with content and limits from a text is made after the rules. -/
theorem wellFormedWith_of_ofParts {content : List Content} {limits : List (Side × List Content)}
    (hok : Term.ofParts (partsOf content limits) now defaultTime = .ok term)
    (hcontent : ∀ c ∈ content, c.InRange ∧ c.Expressible)
    (hlimits : ∀ limit ∈ limits, limit.2 ≠ [] ∧ ∀ c ∈ limit.2, c.InRange ∧ c.Expressible) :
    term.WellFormedWith limits now defaultTime := by
  obtain ⟨rfl, hvalid, hne, -, bounds, hbounds, hbetween⟩ := Term.ofParts_eq_ok_iff.1 hok
  obtain ⟨hlower, hupper⟩ := Term.bounds_eq_ok_iff.1 hbounds
  have hsides := hvalid.limiters.sides
  constructor
  · refine hvalid.wellFormedContent hne ?_
    rwa [contents_partsOf]
  · rw [Term.content, contents_partsOf]
  · rwa [sides_partsOf] at hsides
  · intro hnonempty
    obtain ⟨limit, hlimit⟩ := List.exists_mem_of_ne_nil limits hnonempty
    exact List.any_eq_true.2 (hvalid.limiters.looped ⟨_, mem_partsOf hlimit, rfl⟩)
  · intro limit hlimit
    obtain ⟨hnonempty, hvalues⟩ := hlimits limit hlimit
    obtain ⟨parts, hparts, hvalidLimit⟩ := Term.validLimit_of_ofParts hok (mem_partsOf hlimit)
    obtain rfl := Option.some.inj hparts
    have hrules := hvalidLimit.valid.wellFormedContent
    rw [contents_map_content] at hrules
    refine ⟨hrules hnonempty hvalues, fun c hc => ?_⟩
    exact (hvalidLimit.plain (.content c) (List.mem_map_of_mem hc)).2
  · intro first last hfirst hlast
    obtain ⟨lower, hlowerInstant, hlowerBound⟩ :=
      Term.exists_instant hsides (mem_partsOf hfirst) hlower
    obtain ⟨upper, hupperInstant, hupperBound⟩ :=
      Term.exists_instant hsides (mem_partsOf hlast) hupper
    exact ⟨lower, upper, hlowerInstant, hupperInstant,
      hbetween lower hlowerBound upper hupperBound⟩

/-- The readings of a text are made after the rules. -/
theorem wellFormed_of_mem_readingsOf {text : List Char} (h : term ∈ readingsOf reader text) :
    term.WellFormed reader.now reader.defaultTime := by
  obtain ⟨chain, hchain, hok⟩ := mem_readingsOf_iff.1 h
  obtain ⟨content, limits, hparts, hcontent, hlimits⟩ :=
    exists_assemble_eq (recognized_of_mem_chains hchain) hok
  rw [hparts] at hok
  exact ⟨limits, wellFormedWith_of_ofParts hok hcontent hlimits⟩

/-- Whatever steps have been taken, all that has been found and reported is made after the
rules. -/
theorem Operation.Steps.wellFormed {listener : Listener} {op : Operation} {steps id i : Nat}
    {registered : List Nat} {text : String} {pieces : List (List Char)} {part : PartState}
    (h : (start id registered text pieces).Steps reader listener steps op)
    (hpart : op.parts[i]? = some part) {t : Term} (ht : t ∈ (findings i part).readings) :
    t.WellFormed reader.now reader.defaultTime := by
  rw [readings_findings] at ht
  have hfound : op.searched[i]? = some (part.text, part.progress) := by
    simp [searched, hpart]
  exact wellFormed_of_mem_readingsOf
    (h.searching.sound i _ hfound (List.mem_append_left _ ht))

/-- What is read from a text is made after the rules, alone and beside other expressions. -/
theorem Reader.read_wellFormed (reader : Reader) (text : String) :
    (∀ readings, reader.read text = .ok readings →
      ∀ t ∈ readings, t.WellFormed reader.now reader.defaultTime) ∧
    (∀ result, reader.readAll text = .ok result → ∀ selection ∈ result.parts,
      ∀ t ∈ selection.readings, t.WellFormed reader.now reader.defaultTime) := by
  constructor
  · intro readings hread t ht
    exact wellFormed_of_mem_readingsOf (Reader.mem_readingsOf_of_read hread ht)
  · intro result hread selection hselection t ht
    obtain ⟨⟨steps, hsteps⟩, -⟩ := @Operation.steps_run reader .silent
      (Operation.start 0 [] text (reader.locale.split text))
    have hresult := reader.readAll_eq text
    generalize (Operation.start 0 [] text (reader.locale.split text)).run reader .silent = op
      at hsteps hresult
    rw [hread] at hresult
    cases hfailure : op.failure with
    | some failure =>
      rw [hfailure] at hresult
      cases hresult
    | none =>
      rw [hfailure] at hresult
      obtain rfl := Except.ok.inj hresult
      obtain ⟨i, hi, rfl⟩ := List.mem_mapIdx.1 hselection
      exact hsteps.wellFormed (List.getElem?_eq_getElem hi) ht

/-- The rules hold of the readings of a text with two limits, of which there are some, both when
it is read alone and beside a text that cannot be read. -/
theorem Reader.read_wellFormed_limited :
    let reader : Reader := ⟨.english, ⟨⟨2024, 1, 3, by decide⟩, 9, 30, 0, 0⟩, .midnight⟩
    let text := "every Monday from 9:00 until 2025"
    (∃ readings, reader.read text = .ok readings ∧ ∃ t ∈ readings,
      t.WellFormed reader.now reader.defaultTime) ∧
    ∃ result, reader.readAll ("never; " ++ text) = .ok result ∧ ∃ selection ∈ result.parts,
      ∃ t ∈ selection.readings, t.WellFormed reader.now reader.defaultTime := by
  intro reader text
  have hboth : ((reader.read text).toOption.any fun readings => readings.any fun _ => true) = true ∧
      ((reader.readAll ("never; " ++ text)).toOption.any fun result =>
        result.parts.any fun selection => selection.readings.any fun _ => true) = true := by
    decide +kernel
  obtain ⟨readings, hread, hreadings⟩ := exists_eq_ok_of_any hboth.1
  obtain ⟨result, hreadAll, hresult⟩ := exists_eq_ok_of_any hboth.2
  obtain ⟨t, ht, -⟩ := List.any_eq_true.1 hreadings
  obtain ⟨selection, hselection, hany⟩ := List.any_eq_true.1 hresult
  obtain ⟨u, hu, -⟩ := List.any_eq_true.1 hany
  have hrules (input : String) := Reader.read_wellFormed reader input
  exact ⟨⟨readings, hread, t, ht, (hrules text).1 readings hread t ht⟩,
    result, hreadAll, selection, hselection, u, hu,
    (hrules ("never; " ++ text)).2 result hreadAll selection hselection u hu⟩

end Readings

end TimePhrase
