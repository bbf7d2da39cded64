import TimePhrase.Proofs.Grammar
import TimePhrase.Proofs.Reading.Tally

/-!
# Numbers are read whole

What a recognizer takes in ends neither before a blank nor between two digits, so "2024" is not read
as a 20 and a 24. However a text is cut into the pieces that its parts are found in, each run of
digits lies within one of them.
-/

namespace TimePhrase

open Text (cutsNumber cutsNumber_nil isBlank isDigit)

/-- What has been read of a text ends neither before a blank nor in the middle of a number. -/
structure EndsWhole (before behind : List Char) : Prop where
  number : cutsNumber before behind = false
  blank : ∀ c ∈ behind.head?, isBlank c = false

/-- What is read next after `before` ends as it should. -/
def ReadsWhole (before text rest : List Char) : Prop :=
  ∃ taken, text = taken ++ rest ∧ EndsWhole (before ++ taken) rest

theorem ReadsWhole.trans {before text middle rest : List Char}
    (h : ∃ taken, text = taken ++ middle ∧ ReadsWhole (before ++ taken) middle rest) :
    ReadsWhole before text rest := by
  obtain ⟨first, rfl, second, rfl, hend⟩ := h
  refine ⟨first ++ second, by rw [List.append_assoc], ?_⟩
  rwa [← List.append_assoc]

namespace Recognizer

variable {locale : Locale} {g : Grammar} {text rest before : List Char} {found : Found}

/-- The pattern takes in the blanks behind it, and no match of it ends in the middle of a number. -/
structure Whole (p : Pattern Field) : Prop where
  keeps : p.keepsNumbers true = true
  blanks : p.takesBlanks = true

theorem whole_grammar (locale : Locale) :
    ∀ p ∈ locale.grammar.onceSpan.1 :: patterns locale.grammar, Whole p := by
  obtain ⟨-, hkeeps, hblanks, -⟩ := wellMade locale
  exact fun p hp => ⟨hkeeps p hp, hblanks p hp⟩

theorem readsWhole_of_begins {p : Pattern Field} (hp : Whole p) {m : Match Field}
    (hbefore : cutsNumber before text = false) (hm : begins p text = some m) :
    ReadsWhole before text m.rest := by
  obtain ⟨taken, htaken, hend⟩ :=
    Pattern.exists_taken_of_mem_matches? (List.mem_of_mem_head? hm) fun _ => hbefore
  exact ⟨taken, htaken, hend hp.keeps, Pattern.isBlank_of_takesBlanks hp.blanks hm⟩

theorem readsWhole_of_firstPart {α : Type} {read : α → Match Field → Except Failure (Option Part)}
    {xs : List (Pattern Field × α)} (hxs : ∀ x ∈ xs, Whole x.1)
    (h : firstPart xs text read = .ok (some found)) : ReadsWhole [] text found.rest := by
  obtain ⟨x, hx, m, hm, -, hrest⟩ := of_firstPart h
  rw [← hrest]
  exact readsWhole_of_begins (hxs x hx) rfl hm

/-- Each item of a span begins where something has been read whole, and so does what follows it. -/
theorem readsWhole_of_counts {item : Pattern Field} (hitem : Whole item) {fuel : Nat}
    {counted result : List (TimeUnit × Int)} (hbefore : EndsWhole before text)
    (h : counts g item counted fuel text = .ok (result, rest)) : ReadsWhole before text rest := by
  have hstop : ReadsWhole before text text := ⟨[], rfl, by rwa [List.append_nil]⟩
  induction fuel generalizing before counted text with
  | zero =>
    obtain ⟨rfl, rfl⟩ := Prod.mk.inj (Except.ok.inj h)
    exact hstop
  | succ fuel ih =>
    rw [counts] at h
    split at h
    · obtain ⟨rfl, rfl⟩ := Prod.mk.inj (Except.ok.inj h)
      exact hstop
    · rename_i m hm
      obtain ⟨unit, -, h⟩ := bind_eq_ok_iff.1 h
      split at h
      · obtain ⟨rfl, rfl⟩ := Prod.mk.inj (Except.ok.inj h)
        exact hstop
      · obtain ⟨taken, htaken, hend⟩ := readsWhole_of_begins hitem hbefore.number hm
        obtain ⟨count, h⟩ : ∃ count : Nat,
            counts g item (counted ++ [(unit, (count : Int))]) fuel m.rest =
              .ok (result, rest) := by
          split at h
          · obtain ⟨count, -, h⟩ := bind_eq_ok_iff.1 h
            exact ⟨count, h⟩
          · exact ⟨1, h⟩
        exact .trans ⟨taken, htaken, ih hend h ⟨[], rfl, by rwa [List.append_nil]⟩⟩

theorem readsWhole_of_spanAfter {opening item : Pattern Field} (hopening : Whole opening)
    (hitem : Whole item) {looped : Bool}
    (h : spanAfter g opening item looped text = .ok (some found)) :
    ReadsWhole [] text found.rest := by
  simp only [spanAfter] at h
  split at h
  · cases h
  · rename_i m hm
    obtain ⟨⟨result, rest⟩, hcounts, h⟩ := bind_eq_ok_iff.1 h
    simp only [pure_eq_ok, Except.ok.injEq] at h
    split at h
    · cases h
    · obtain rfl := Option.some.inj h
      obtain ⟨taken, htaken, hend⟩ := readsWhole_of_begins hopening cutsNumber_nil hm
      exact .trans ⟨taken, htaken, readsWhole_of_counts hitem hend hcounts⟩

theorem readsWhole_of_span (hwhole : ∀ p ∈ g.onceSpan.1 :: patterns g, Whole p)
    (h : span g text = .ok (some found)) : ReadsWhole [] text found.rest := by
  simp only [patterns, List.forall_mem_append, List.forall_mem_cons] at hwhole
  obtain ⟨honce, ⟨⟨⟨-, -, hlooped, hitem, -⟩, hopening⟩, -⟩, -⟩ := hwhole
  simp only [span] at h
  split at h
  · rename_i opening item hloop
    obtain ⟨looped, hfound, h⟩ := bind_eq_ok_iff.1 h
    cases looped with
    | none => exact readsWhole_of_spanAfter honce hitem h
    | some first =>
      obtain rfl := Option.some.inj (Except.ok.inj h)
      rw [hloop] at hlooped hopening
      exact readsWhole_of_spanAfter (hopening opening (by simp)) hlooped hfound
  · exact readsWhole_of_spanAfter honce hitem h

/-- What a recognizer takes in ends neither before a blank nor in the middle of a number. -/
theorem readsWhole_of_ofKind {kind : Kind}
    (h : ofKind kind locale.grammar text = .ok (some found)) : ReadsWhole [] text found.rest := by
  have hwhole := whole_grammar locale
  have hpatterns := (List.forall_mem_cons.1 hwhole).2
  simp only [patterns, List.forall_mem_append, List.forall_mem_cons] at hpatterns
  obtain ⟨⟨⟨⟨⟨⟨⟨⟨⟨htimes, hinverted⟩, hdates⟩, hmonthDays⟩, hweekdays⟩, hmonths⟩,
    hyear, -⟩, -⟩, hdays⟩, hlimiters⟩ := hpatterns
  cases kind with
  | time => exact readsWhole_of_firstPart (by simpa using htimes) h
  | invertedTime => exact readsWhole_of_firstPart (List.forall_mem_map.1 hinverted) h
  | date => exact readsWhole_of_firstPart (List.forall_mem_map.1 hdates) h
  | monthDay => exact readsWhole_of_firstPart (List.forall_mem_map.1 hmonthDays) h
  | weekday => exact readsWhole_of_firstPart (List.forall_mem_map.1 hweekdays) h
  | month => exact readsWhole_of_firstPart (List.forall_mem_map.1 hmonths) h
  | year => exact readsWhole_of_firstPart (by simpa using hyear) h
  | keyword => exact readsWhole_of_firstPart (List.forall_mem_map.1 hdays) h
  | limiter => exact readsWhole_of_firstPart (List.forall_mem_map.1 hlimiters) h
  | span => exact readsWhole_of_span hwhole h

end Recognizer

/-- The text consists of these pieces. Each is what a recognizer takes in of the text from there on,
and the part that it finds in it. -/
inductive Segmented (grammar : Grammar) : List Char → List (List Char × Part) → Prop
  | nil : Segmented grammar [] []
  | cons {kind : Kind} {taken : List Char} {found : Found} {pieces : List (List Char × Part)}
    (htaken : taken ≠ [])
    (hfound : Recognizer.ofKind kind grammar (taken ++ found.rest) = .ok (some found))
    (hrest : Segmented grammar found.rest pieces) :
    Segmented grammar (taken ++ found.rest) ((taken, found.part) :: pieces)

/-- Of the pieces that make up a text, one holds all of `run`, which stands between `before` and
`after` in the text. -/
def InOnePiece (pieces : List (List Char × Part)) (before run after : List Char) : Prop :=
  ∃ front piece back left right, pieces = front ++ piece :: back ∧
    piece.1 = left ++ run ++ right ∧ before = front.flatMap (·.1) ++ left ∧
      after = right ++ back.flatMap (·.1)

namespace Segmented

variable {locale : Locale} {text : List Char} {pieces : List (List Char × Part)}

theorem flatMap_fst {grammar : Grammar} (h : Segmented grammar text pieces) :
    pieces.flatMap (·.1) = text := by
  induction h with
  | nil => rfl
  | cons _ _ _ ih => rw [List.flatMap_cons, ih]

/-- Every chain of parts cuts the text into pieces. -/
theorem exists_of_mem_chains {chain : List Part} (h : chain ∈ chains locale.grammar text) :
    ∃ pieces, Segmented locale.grammar text pieces ∧ pieces.map (·.2) = chain := by
  induction chain generalizing text with
  | nil =>
    obtain ⟨rfl, -⟩ | ⟨_, _, _, -, -, -, heq⟩ := mem_chains_iff.1 h
    · exact ⟨[], .nil, rfl⟩
    · cases heq
  | cons part chain ih =>
    obtain ⟨-, hnil⟩ | ⟨kind, found, others, hfound, hlt, hothers, heq⟩ := mem_chains_iff.1 h
    · cases hnil
    · obtain ⟨rfl, rfl⟩ := List.cons.inj heq
      obtain ⟨pieces, hpieces, rfl⟩ := ih hothers
      obtain ⟨taken, rfl, -⟩ := Recognizer.readsWhole_of_ofKind hfound
      have htaken : taken ≠ [] := by
        rintro rfl
        exact lt_irrefl _ hlt
      exact ⟨(taken, found.part) :: pieces, .cons htaken hfound hpieces, rfl⟩

/-- Digits that stand side by side are all in the same piece. -/
theorem inOnePiece (h : Segmented locale.grammar text pieces) {before run after : List Char}
    (htext : text = before ++ run ++ after) (hrun : run ≠ [])
    (hdigits : ∀ c ∈ run, isDigit c = true) : InOnePiece pieces before run after := by
  induction h generalizing before with
  | nil => simp [hrun] at htext
  | @cons kind taken found pieces _ hfound hrest ih =>
    obtain ⟨whole, hwhole, hend⟩ := Recognizer.readsWhole_of_ofKind hfound
    obtain rfl := List.append_cancel_right hwhole
    rcases Text.run_before_or_behind hend.number htext hdigits with
      ⟨right, hpiece, hafter⟩ | ⟨between, hbefore, hrest'⟩
    · exact ⟨[], (taken, found.part), pieces, before, right, rfl, hpiece, rfl,
        by rw [hrest.flatMap_fst]; exact hafter⟩
    · obtain ⟨front, piece, back, left, right, rfl, hpiece, rfl, hafter⟩ := ih hrest'
      refine ⟨(taken, found.part) :: front, piece, back, left, right, rfl, hpiece, ?_, hafter⟩
      rw [hbefore, List.flatMap_cons, List.nil_append, List.append_assoc]

end Segmented

/-- The text can be cut into the pieces, and their parts make up the reading. -/
structure Reader.ReadsAs (reader : Reader) (text : String) (pieces : List (List Char × Part))
    (term : Term) : Prop where
  segmented : Segmented reader.locale.grammar (Text.strip text.toList) pieces
  parts : Term.ofParts (assemble (pieces.map (·.2))) reader.now reader.defaultTime = .ok term

/-- A number is read whole or not at all. What a recognizer takes in is followed neither by a blank
nor, where it ends in a digit, by another digit. So every reading comes from cutting the text into
pieces for its parts, and however it is cut for it, each run of digits is within one of the
pieces. -/
theorem Reader.numbers_whole (reader : Reader) :
    (∀ kind text found, Recognizer.ofKind kind reader.locale.grammar text = .ok (some found) →
      ∃ taken, text = taken ++ found.rest ∧
        (∀ c ∈ found.rest.head?, isBlank c = false) ∧
          ∀ c ∈ taken.getLast?, ∀ d ∈ found.rest.head?, ¬ (isDigit c = true ∧ isDigit d = true)) ∧
      ∀ text readings, reader.read text = .ok readings → ∀ term ∈ readings,
        (∃ pieces, reader.ReadsAs text pieces term) ∧
          ∀ pieces, reader.ReadsAs text pieces term → ∀ before run after,
            Text.strip text.toList = before ++ run ++ after → run ≠ [] →
              (∀ c ∈ run, isDigit c = true) → InOnePiece pieces before run after := by
  refine ⟨fun kind text found hfound => ?_, fun text readings hread term hterm => ⟨?_, ?_⟩⟩
  · obtain ⟨taken, htaken, hend⟩ := Recognizer.readsWhole_of_ofKind hfound
    refine ⟨taken, htaken, hend.blank, fun c hc d hd ⟨hcdigit, hddigit⟩ => ?_⟩
    have hnumber : cutsNumber taken found.rest = false := hend.number
    simp [cutsNumber, Option.mem_def.1 hc, Option.mem_def.1 hd, hcdigit, hddigit] at hnumber
  · obtain ⟨chain, hchain, hparts⟩ := mem_readingsOf_iff.1 (mem_readingsOf_of_read hread hterm)
    obtain ⟨pieces, hpieces, rfl⟩ := Segmented.exists_of_mem_chains hchain
    exact ⟨pieces, hpieces, hparts⟩
  · intro pieces hpieces before run after htext hrun hdigits
    exact hpieces.segmented.inOnePiece htext hrun hdigits

/-- A year in front of a weekday is taken in with the blank behind it. In "9:30 20.5.2024" the year
is within one piece, however the text is cut for a reading. -/
theorem Reader.numbers_whole_fullDate :
    let reader : Reader := ⟨.english, ⟨⟨2024, 1, 3, by decide⟩, 9, 30, 0, 0⟩, .midnight⟩
    let text := "9:30 20.5.2024"
    (∃ found,
      Recognizer.ofKind .year reader.locale.grammar "2024 Monday".toList = .ok (some found) ∧
      ∃ taken, "2024 Monday".toList = taken ++ found.rest ∧
        (∀ c ∈ found.rest.head?, isBlank c = false) ∧
          ∀ c ∈ taken.getLast?, ∀ d ∈ found.rest.head?, ¬ (isDigit c = true ∧ isDigit d = true)) ∧
      ∃ readings, reader.read text = .ok readings ∧ ∃ term ∈ readings,
        (∃ pieces, reader.ReadsAs text pieces term) ∧
          ∀ pieces, reader.ReadsAs text pieces term →
            InOnePiece pieces "9:30 20.5.".toList "2024".toList [] := by
  intro reader text
  obtain ⟨hyear, htext⟩ :
      (Recognizer.ofKind .year reader.locale.grammar "2024 Monday".toList).toOption.any
        Option.isSome = true ∧ (reader.read text).toOption.any (!·.isEmpty) = true := by
    decide +kernel
  obtain ⟨year, hfound, hsome⟩ := exists_eq_ok_of_any hyear
  obtain ⟨found, rfl⟩ := Option.isSome_iff_exists.1 hsome
  obtain ⟨readings, hread, hreadings⟩ := exists_eq_ok_of_any htext
  obtain ⟨hrecognized, hwhole⟩ := Reader.numbers_whole reader
  refine ⟨⟨found, hfound, hrecognized _ _ _ hfound⟩, readings, hread, ?_⟩
  cases readings with
  | nil => cases hreadings
  | cons term others =>
    obtain ⟨hpieces, honce⟩ := hwhole text _ hread term (List.mem_cons_self ..)
    have hdigits : ∀ c ∈ "2024".toList, isDigit c = true :=
      List.all_eq_true.1 (by decide : "2024".toList.all isDigit = true)
    exact ⟨term, List.mem_cons_self .., hpieces, fun pieces hcut =>
      honce pieces hcut _ _ [] (by decide) (by decide) hdigits⟩

end TimePhrase
