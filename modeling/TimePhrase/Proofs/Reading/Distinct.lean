import TimePhrase.Proofs.Description.Kind
import TimePhrase.Proofs.Reading.InvertedTime
import TimePhrase.Proofs.Reading.Parts
import TimePhrase.Reading.Order

/-!
# Distinct readings

No two readings of a text are described alike. Where two chains of a text first differ they go on
with parts of different kinds, and the descriptions tell these apart. Only a time of day and an
inverted time are described by the same words, and where both are found the two times differ.
-/

namespace TimePhrase

variable {locale : Locale} {reader : Reader} {text : List Char}

section Chains

/-- The descriptions of some parts, each behind a blank. -/
def written (parts : List Part) : List Char := spaced ((describeAll parts).toOption.getD [])

theorem written_cons {p : Part} {rest : List Part} (h : ∀ q ∈ p :: rest, q.Recognized) :
    ∃ text texts, p.describe = .ok text ∧ describeAll rest = .ok texts ∧
      written rest = spaced texts ∧ written (p :: rest) = ' ' :: (text.toList ++ spaced texts) := by
  obtain ⟨text, htext⟩ := (h p (List.mem_cons_self ..)).inRange.exists_describe
  obtain ⟨texts, htexts⟩ := exists_describeAll fun q hq =>
    (h q (List.mem_cons_of_mem p hq)).inRange.exists_describe
  refine ⟨text, texts, htext, htexts, by rw [written, htexts]; rfl, ?_⟩
  rw [written, describeAll, htext, htexts]
  rfl

/-- The kind of the first part is read off what is written. -/
theorem writtenKind_written {p : Part} {rest : List Part} (h : ∀ q ∈ p :: rest, q.Recognized) :
    writtenKind ((written (p :: rest)).drop 1) = p.plain.kind := by
  obtain ⟨text, texts, htext, htexts, -, hwritten⟩ := written_cons h
  obtain ⟨hp, hrest⟩ := List.forall_mem_cons.1 h
  rw [hwritten, List.drop_one, List.tail_cons]
  refine p.writtenKind_describe hp htext ?_
  cases rest with
  | nil =>
    obtain rfl := Except.ok.inj (describeAll_nil.symm.trans htexts)
    decide
  | cons q others =>
    obtain ⟨next, more, hnext, -, rfl⟩ := exists_of_describeAll_cons htexts
    rw [spaced_cons, List.drop_one, List.tail_cons]
    exact firstWord_describe (hrest q (List.mem_cons_self ..)) hnext more

/-- A part of the kind of times is a time of day, given in one way or the other. -/
theorem exists_clock {p : Part} (h : p.plain.kind = .time) :
    ∃ clock inverted, p = Recognizer.ofPoint (.time clock inverted) := by
  rcases p with (p | s) | ⟨side, _ | limit⟩
  · cases p with
    | time clock inverted => exact ⟨clock, inverted, rfl⟩
    | _ => simp [Part.plain, Content.plain, Point.plain, Part.kind, Content.kind, Point.kind] at h
  · cases s <;> simp [Part.plain, Content.plain, Part.kind, Content.kind, Span.kind] at h
  · simp [Part.plain, Part.kind] at h
  · simp [Part.plain, Part.kind] at h

/-- Only a time of day has another kind in its plain form. -/
theorem kind_plain {p : Part} (h : p.plain.kind ≠ .time) : p.plain.kind = p.kind := by
  rcases p with (p | s) | ⟨side, _ | limit⟩
  · cases p with
    | time =>
      simp [Part.plain, Content.plain, Point.plain, Part.kind, Content.kind, Point.kind] at h
    | _ => simp [Part.plain, Content.plain, Point.plain, Part.kind, Content.kind, Point.kind]
  · simp [Part.plain, Content.plain, Part.kind, Content.kind]
  · simp [Part.plain]
  · simp [Part.plain, Part.kind]

theorem recognized_cons {kind : Kind} {found : Found} {rest : List Part}
    (hfound : Recognizer.ofKind kind locale.grammar text = .ok (some found))
    (hrest : rest ∈ chains locale.grammar found.rest) : ∀ p ∈ found.part :: rest, p.Recognized :=
  List.forall_mem_cons.2 ⟨(Recognizer.of_ofKind hfound).1, recognized_of_mem_chains hrest⟩

/-- A time of day and an inverted time that a text begins with are not described alike, if the text
can be read to its end behind the time of day. -/
theorem written_ne_of_time {found other : Found} {rest others : List Part}
    (hfound : Recognizer.ofKind .time locale.grammar text = .ok (some found))
    (hother : Recognizer.ofKind .invertedTime locale.grammar text = .ok (some other))
    (hrest : rest ∈ chains locale.grammar found.rest)
    (hothers : others ∈ chains locale.grammar other.rest) {clock clock' : TimeOfDay}
    (hclock : found.part = Recognizer.ofPoint (.time clock false))
    (hclock' : other.part = Recognizer.ofPoint (.time clock' true)) :
    written (found.part :: rest) ≠ written (other.part :: others) := by
  intro hsame
  obtain ⟨text₁, texts₁, htext₁, -, -, hwritten₁⟩ := written_cons (recognized_cons hfound hrest)
  obtain ⟨text₂, texts₂, htext₂, -, -, hwritten₂⟩ := written_cons (recognized_cons hother hothers)
  rw [hclock, Recognizer.ofPoint, Part.describe] at htext₁
  rw [hclock', Recognizer.ofPoint, Part.describe] at htext₂
  obtain rfl : "at " ++ clock.stamp = text₁ := Except.ok.inj htext₁
  obtain rfl : "at " ++ clock'.stamp = text₂ := Except.ok.inj htext₂
  rw [hwritten₁, hwritten₂, String.toList_append, String.toList_append, List.append_assoc,
    List.append_assoc] at hsame
  obtain rfl := stamp_inj (List.append_cancel_left (List.cons.inj hsame).2)
  obtain hne | hnil := Recognizer.time_ne_invertedTime hfound hother hclock hclock'
  · exact hne rfl
  · rw [hnil] at hrest
    exact List.not_mem_nil hrest

/-- Parts of different kinds that a text begins with are not described alike. -/
theorem written_ne {kind kind' : Kind} (hne : kind ≠ kind') {found other : Found}
    {rest others : List Part}
    (hfound : Recognizer.ofKind kind locale.grammar text = .ok (some found))
    (hother : Recognizer.ofKind kind' locale.grammar text = .ok (some other))
    (hrest : rest ∈ chains locale.grammar found.rest)
    (hothers : others ∈ chains locale.grammar other.rest) :
    written (found.part :: rest) ≠ written (other.part :: others) := by
  intro hsame
  have hkinds : found.part.plain.kind = other.part.plain.kind := by
    rw [← writtenKind_written (recognized_cons hfound hrest), hsame,
      writtenKind_written (recognized_cons hother hothers)]
  obtain ⟨-, rfl, -⟩ := Recognizer.of_ofKind hfound
  obtain ⟨-, rfl, -⟩ := Recognizer.of_ofKind hother
  by_cases htime : found.part.plain.kind = .time
  · obtain ⟨clock, inverted, hclock⟩ := exists_clock htime
    obtain ⟨clock', inverted', hclock'⟩ := exists_clock (hkinds ▸ htime)
    rw [hclock] at hfound hne
    rw [hclock'] at hother hne
    cases inverted <;> cases inverted'
    · exact hne rfl
    · exact written_ne_of_time hfound hother hrest hothers hclock hclock' hsame
    · exact written_ne_of_time hother hfound hothers hrest hclock' hclock hsame.symm
    · exact hne rfl
  · have htime' : other.part.plain.kind ≠ .time := fun h => htime (hkinds.trans h)
    exact hne ((kind_plain htime).symm.trans (hkinds.trans (kind_plain htime')))

/-- The chains of a text that begin with a part of the given kind. -/
def chainsVia (grammar : Grammar) (text : List Char) (kind : Kind) : List (List Part) :=
  match Recognizer.ofKind kind grammar text with
  | .ok (some found) =>
    if found.rest.length < text.length then (chains grammar found.rest).map (found.part :: ·)
    else []
  | _ => []

theorem chains_eq_flatMap (grammar : Grammar) (h : text.isEmpty = false) :
    chains grammar text = Recognizer.kinds.flatMap (chainsVia grammar text) := by
  rw [chains, h]
  rfl

theorem exists_of_mem_chainsVia {grammar : Grammar} {kind : Kind} {chain : List Part}
    (h : chain ∈ chainsVia grammar text kind) : ∃ found rest,
      Recognizer.ofKind kind grammar text = .ok (some found) ∧ rest ∈ chains grammar found.rest ∧
        chain = found.part :: rest := by
  unfold chainsVia at h
  split at h
  · rename_i found hfound
    split at h
    · obtain ⟨rest, hrest, rfl⟩ := List.mem_map.1 h
      exact ⟨found, rest, hfound, hrest, rfl⟩
    · exact absurd h List.not_mem_nil
  · exact absurd h List.not_mem_nil

/-- Chains that begin with the same part are told apart by the rest of them. -/
theorem chainsVia_pairwise {kind : Kind} (h : ∀ rest : List Char, rest.length < text.length →
      (chains locale.grammar rest).Pairwise fun chain other => written chain ≠ written other) :
    (chainsVia locale.grammar text kind).Pairwise fun chain other =>
      written chain ≠ written other := by
  unfold chainsVia
  split
  · rename_i found hfound
    split
    · rename_i hlt
      refine List.pairwise_map.2 ((h found.rest hlt).imp_of_mem ?_)
      intro rest others hrest hothers hdiffer hsame
      obtain ⟨text₁, _, htext₁, -, hwritten₁, hcons₁⟩ := written_cons (recognized_cons hfound hrest)
      obtain ⟨text₂, _, htext₂, -, hwritten₂, hcons₂⟩ :=
        written_cons (recognized_cons hfound hothers)
      obtain rfl := Except.ok.inj (htext₁.symm.trans htext₂)
      rw [hcons₁, hcons₂, ← hwritten₁, ← hwritten₂] at hsame
      exact hdiffer (List.append_cancel_left (List.cons.inj hsame).2)
    · exact .nil
  · exact .nil

/-- No two chains of a text are described alike. -/
theorem chains_pairwise (locale : Locale) (text : List Char) :
    (chains locale.grammar text).Pairwise fun chain other => written chain ≠ written other := by
  induction hlength : text.length using Nat.strongRecOn generalizing text with
  | ind length ih =>
    subst hlength
    cases hempty : text.isEmpty with
    | true =>
      rw [chains, hempty]
      exact List.pairwise_singleton ..
    | false =>
      have hkinds : Recognizer.kinds.Pairwise (· ≠ ·) := by decide
      rw [chains_eq_flatMap _ hempty]
      refine List.pairwise_flatMap.2
        ⟨fun kind _ => chainsVia_pairwise fun rest hlt => ih _ hlt rest rfl,
          hkinds.imp fun hne chain hchain other hother => ?_⟩
      obtain ⟨found, rest, hfound, hrest, rfl⟩ := exists_of_mem_chainsVia hchain
      obtain ⟨found', others, hfound', hothers, rfl⟩ := exists_of_mem_chainsVia hother
      exact written_ne hne hfound hfound' hrest hothers

end Chains

section Readings

theorem eq_nil_iff_of_mem_chains {grammar : Grammar} {chain : List Part}
    (h : chain ∈ chains grammar text) : chain = [] ↔ text = [] := by
  obtain ⟨rfl, rfl⟩ | ⟨_, found, rest, -, hlt, -, rfl⟩ := mem_chains_iff.1 h
  · simp
  · have hne : text ≠ [] := List.ne_nil_of_length_pos (Nat.zero_lt_of_lt hlt)
    simp [hne]

/-- The reading that a chain comes to is described by what is written of the chain. -/
theorem describe_of_mem_chains {chain : List Part} (h : chain ∈ chains locale.grammar text) :
    ∃ description, Term.describe ⟨assemble chain⟩ = .ok description ∧
      (text ≠ [] → written chain = ' ' :: description.toList) := by
  have hparts := recognized_of_mem_chains h
  obtain ⟨texts, htexts⟩ := exists_describeAll fun p hp => (hparts p hp).inRange.exists_describe
  refine ⟨_, describe_assemble hparts htexts, fun hne => ?_⟩
  obtain ⟨p, rest, rfl⟩ := List.exists_cons_of_ne_nil (mt (eq_nil_iff_of_mem_chains h).1 hne)
  obtain ⟨text₁, others, htext₁, hothers, -, hwritten⟩ := written_cons hparts
  rw [describeAll, htext₁, hothers] at htexts
  obtain rfl := Except.ok.inj htexts
  rw [hwritten, toList_intercalate_cons]

/-- The readings of a text have descriptions, no two the same. -/
theorem readingsOf_describe (reader : Reader) (text : List Char) :
    (∀ t ∈ readingsOf reader text, ∃ description, t.describe = .ok description) ∧
      (readingsOf reader text).Pairwise fun t u => t.describe ≠ u.describe := by
  have hterm {chain : List Part} {t : Term}
      (h : (Term.ofParts (assemble chain) reader.now reader.defaultTime).toOption = some t) :
      t = ⟨assemble chain⟩ := by
    obtain ⟨rfl, -⟩ := Term.ofParts_eq_ok_iff.1 (eq_ok_of_toOption h)
    rfl
  constructor
  · intro t ht
    obtain ⟨chain, hchain, hok⟩ := List.mem_filterMap.1 ht
    obtain ⟨description, hdescribe, -⟩ := describe_of_mem_chains hchain
    exact ⟨description, hterm hok ▸ hdescribe⟩
  · refine List.pairwise_filterMap.2 ((chains_pairwise reader.locale text).imp_of_mem ?_)
    intro chain other hchain hother hdiffer t ht u hu hsame
    rw [hterm ht, hterm hu] at hsame
    apply hdiffer
    by_cases hempty : text = []
    · rw [(eq_nil_iff_of_mem_chains hchain).2 hempty, (eq_nil_iff_of_mem_chains hother).2 hempty]
    · obtain ⟨description, hdescribe, hwritten⟩ := describe_of_mem_chains hchain
      obtain ⟨description', hdescribe', hwritten'⟩ := describe_of_mem_chains hother
      rw [hdescribe, hdescribe', Except.ok.injEq] at hsame
      rw [hwritten hempty, hwritten' hempty, hsame]

theorem nodup_readingsOf (reader : Reader) (text : List Char) : (readingsOf reader text).Nodup := by
  obtain ⟨-, hpairwise⟩ := readingsOf_describe reader text
  exact hpairwise.imp fun hdiffer heq => hdiffer (by rw [heq])

/-- When no look fails, the branches that are reached end in the readings that begin with the first
one. -/
theorem Branch.readings_reached {branch : Branch}
    (h : ∀ other ∈ branch.reached reader text, (other.explore reader text).failure = none) :
    ((branch.reached reader text).flatMap fun other => (other.explore reader text).readings).Perm
      (branch.terms reader) := by
  induction hlength : branch.rest.length using Nat.strongRecOn generalizing branch with
  | ind length ih =>
    subst hlength
    rw [reached_eq] at h ⊢
    obtain ⟨hbranch, hchildren⟩ := List.forall_mem_cons.1 h
    rw [List.flatMap_cons, List.flatMap_assoc, ← terms_explore_of_failure hbranch]
    refine List.Perm.append_left _ (List.Perm.flatMap_left _ fun child hchild => ?_)
    exact ih _ (length_of_mem_explore hchild)
      (fun other hother => hchildren other (List.mem_flatMap.2 ⟨child, hchild, hother⟩)) rfl

/-- A text that is read has just the readings that generating and testing comes to. -/
theorem Reader.read_perm {text : String} {readings : List Term}
    (h : reader.read text = .ok readings) :
    readings.Perm (readingsOf reader (Text.strip text.toList)) := by
  obtain ⟨hfailure, rfl, -⟩ := readings_of_read h
  have hreached := answers_iff.1 (failureOf_eq_none_iff.1 hfailure)
  have hturns := Branch.inTurn_perm reader (Text.strip text.toList)
    [.start (Text.strip text.toList)]
  rw [List.flatMap_singleton] at hturns
  rw [progressOf, Progress.readings_after, ← Branch.terms_start]
  exact (hturns.flatMap_right _).trans (Branch.readings_reached hreached)

/-- A text with one reading at most has that reading, if any, for its answer. -/
theorem Reader.read_eq_ok_iff_of_unique {text : String} {IsReading : Term → Prop}
    (hstrip : Text.strip text.toList = text.toList)
    (hreadable : Readable reader.locale.grammar text.toList)
    (hreadings : ∀ t, t ∈ readingsOf reader text.toList ↔ IsReading t)
    (hunique : ∀ t u, IsReading t → IsReading u → t = u) {readings : List Term} :
    reader.read text = .ok readings ↔ ∃ t, IsReading t ∧ readings = [t] := by
  rw [← hstrip] at hreadable hreadings
  have hsingle {readings : List Term} (hread : reader.read text = .ok readings) :
      ∃ t, IsReading t ∧ readings = [t] := by
    have hperm := read_perm hread
    have hnodup : readings.Nodup := hperm.nodup_iff.2 (nodup_readingsOf reader _)
    have hall : ∀ t ∈ readings, IsReading t := fun t ht => (hreadings t).1 (hperm.mem_iff.1 ht)
    cases readings with
    | nil => exact absurd rfl (readings_of_read hread).2.2
    | cons t rest =>
      obtain ⟨ht, hrest⟩ := List.forall_mem_cons.1 hall
      have hnil : rest = [] := List.eq_nil_iff_forall_not_mem.2 fun u hu =>
        (List.nodup_cons.1 hnodup).1 (hunique u t (hrest u hu) ht ▸ hu)
      exact ⟨t, ht, by rw [hnil]⟩
  constructor
  · exact hsingle
  · rintro ⟨t, ht, rfl⟩
    obtain ⟨readings, hread, -⟩ := exists_read hreadable ((hreadings t).2 ht)
    obtain ⟨u, hu, rfl⟩ := hsingle hread
    rw [hread, hunique u t hu ht]

/-- The readings of an expression are all different, and so are their descriptions: in the list that
a reading is chosen from, one place only shows the description of a reading, and there it is. -/
theorem Reader.read_distinct {text : String} {readings : List Term}
    (h : reader.read text = .ok readings) :
    readings.Nodup ∧ (readings.map Term.describe).Nodup ∧
      (∀ t ∈ readings, ∃ description, t.describe = .ok description) ∧
      ∀ t ∈ readings, ∃ place : Nat, (Term.sortByText readings)[place]? = some t ∧
        ∀ other u, (Term.sortByText readings)[other]? = some u → u.text = t.text →
          other = place := by
  have hperm := read_perm h
  obtain ⟨hdescribed, hpairwise⟩ := readingsOf_describe reader (Text.strip text.toList)
  have hall : ∀ t ∈ readings, ∃ description, t.describe = .ok description :=
    fun t ht => hdescribed t (hperm.mem_iff.1 ht)
  have hdiffer : readings.Pairwise fun t u => t.describe ≠ u.describe :=
    hperm.symm.pairwise hpairwise fun hne => hne.symm
  have hsorted : (Term.sortByText readings).Perm readings := sortByKey_perm Term.text readings
  have htexts : ((Term.sortByText readings).map Term.text).Nodup := by
    refine List.pairwise_map.2 ((hsorted.symm.pairwise hdiffer fun hne => hne.symm).imp_of_mem ?_)
    intro t u ht hu hne hsame
    obtain ⟨description, hdescribe⟩ := hall t (hsorted.mem_iff.1 ht)
    obtain ⟨description', hdescribe'⟩ := hall u (hsorted.mem_iff.1 hu)
    rw [Term.text_of_describe hdescribe, Term.text_of_describe hdescribe'] at hsame
    exact hne (by rw [hdescribe, hdescribe', hsame])
  refine ⟨hdiffer.imp fun hne heq => hne (congrArg Term.describe heq), List.pairwise_map.2 hdiffer,
    hall, fun t ht => ?_⟩
  obtain ⟨place, hplace⟩ := List.mem_iff_getElem?.1 (hsorted.mem_iff.2 ht)
  refine ⟨place, hplace, fun other u hother hsame => ?_⟩
  obtain ⟨hlt, -⟩ := List.getElem?_eq_some_iff.1 hother
  refine (List.getElem?_inj (by simpa using hlt) htexts).1 ?_
  rw [List.getElem?_map, List.getElem?_map, hother, hplace, Option.map_some, Option.map_some, hsame]

/-- "every mon 5 to 7" has eight readings: Mondays or months, and a time relative to the hour or a
limit. -/
theorem Reader.read_distinct_everyMonday :
    let reader : Reader := ⟨.english, ⟨⟨2024, 1, 3, by decide⟩, 9, 30, 0, 0⟩, .midnight⟩
    ∃ readings, reader.read "every mon 5 to 7" = .ok readings ∧ readings.length = 8 ∧
      readings.Nodup ∧ (readings.map Term.describe).Nodup ∧
      (∀ t ∈ readings, ∃ description, t.describe = .ok description) ∧
      ∀ t ∈ readings, ∃ place : Nat, (Term.sortByText readings)[place]? = some t ∧
        ∀ other u, (Term.sortByText readings)[other]? = some u → u.text = t.text →
          other = place := by
  intro reader
  have hcount : ((reader.read "every mon 5 to 7").toOption.any (·.length = 8)) = true := by
    decide +kernel
  obtain ⟨readings, hread, hlength⟩ := exists_eq_ok_of_any hcount
  exact ⟨readings, hread, of_decide_eq_true hlength, Reader.read_distinct hread⟩

end Readings

end TimePhrase
