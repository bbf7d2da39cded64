import TimePhrase.Proofs.Description.Reread
import TimePhrase.Proofs.Pattern.Lead

/-!
# Reading the description of a span back

A span is read count by count, as far as counts reach. In a description each count is followed by
the next one after a conjunction, and the last one by something that is no count. One description
begins with the name of a unit, "day after tomorrow", which a repeating span would take in.
-/

namespace TimePhrase.Recognizer

open Text (plainDigits)
open Pattern (Leads blanks someBlanks literal wordEnd)

/-- A number of any length. -/
def number : Pattern Field := .run .digit 1 none

/-- The conjunction before another count. -/
def joined (looped : Bool) : Pattern Field :=
  .seq (literal " and".toList) (.followedBy (.seq blanks (.seq (Grammar.countOf looped number)
    (.seq (Grammar.unitWord .english) .empty))))

theorem spanItem_english (looped : Bool) : Grammar.spanItem .english looped =
    .seq (.seq (Grammar.countOf looped (.group .count number))
      (.seq (.group .unit (Grammar.unitWord .english))
        (.seq (.optional (joined looped)) .empty))) blanks := rfl

variable {digits : List Char} {tail next rest : List Char} {groups : List (Field × Slice)}

section Count

variable (hdigits : ∀ c ∈ digits, c ∈ plainDigits) (hne : digits ≠ [])
  (hrest : ∀ c ∈ rest.head?, Text.isBlank c = false)

include hdigits hne in
theorem leads_number :
    number.Leads Text.sameLetter ⟨digits ++ ' ' :: rest, groups⟩ ⟨' ' :: rest, groups⟩ :=
  Pattern.leads_run digits (fun c hc => Text.isDigit_of_mem (hdigits c hc))
    (fun c hc => Option.some.inj hc ▸ by decide) (List.length_pos_iff.2 hne)

include hrest in
theorem leads_blank :
    Leads Text.sameLetter someBlanks ⟨' ' :: rest, groups⟩ ⟨rest, groups⟩ :=
  Pattern.leads_run [' ']
    (fun c hc => List.mem_singleton.1 hc ▸ by decide) hrest (by simp)

include hdigits hne hrest in
theorem leads_countOf (looped : Bool) :
    (Grammar.countOf looped number).Leads Text.sameLetter ⟨digits ++ ' ' :: rest, groups⟩
      ⟨rest, groups⟩ := by
  have hcount : (Pattern.seq number someBlanks).Leads Text.sameLetter
      ⟨digits ++ ' ' :: rest, groups⟩ ⟨rest, groups⟩ :=
    (leads_number hdigits hne).seq (leads_blank hrest)
  cases looped with
  | false => exact hcount
  | true => exact hcount.optional

include hdigits hne hrest in
theorem leads_countOf_group (looped : Bool) :
    (Grammar.countOf looped (.group .count number)).Leads Text.sameLetter
      ⟨digits ++ ' ' :: rest, groups⟩
      ⟨rest, (.count, ⟨digits ++ ' ' :: rest, ' ' :: rest⟩) :: groups⟩ := by
  have hcount : (Pattern.seq (.group .count number) someBlanks).Leads Text.sameLetter
      ⟨digits ++ ' ' :: rest, groups⟩
      ⟨rest, (.count, ⟨digits ++ ' ' :: rest, ' ' :: rest⟩) :: groups⟩ :=
    ((leads_number hdigits hne).group .count).seq (leads_blank hrest)
  cases looped with
  | false => exact hcount
  | true => exact hcount.optional

end Count

/-- The name of a unit, in the plural unless there is one of it. -/
def unitText (unit : TimeUnit) (one : Bool) : String := unit.name ++ if one then "" else "s"

theorem traces_unit : ∀ unit ∈ TimeUnit.all, ∀ one,
    (Grammar.unitWord .english).traces? Text.sameLetter false ⟨letters (unitText unit one), []⟩ =
        some [⟨[], []⟩] ∧
      (Grammar.unitWord .english).traces? Text.sameLetter true
        ⟨letters (unitText unit one) ++ [.char ' '], []⟩ = some [⟨[.char ' '], []⟩] ∧
      lookUp Grammar.english.units (unitText unit one).toList = .ok unit := by
  decide

theorem digitsAt_nil_mem : ∀ i, digitsAt [] i ∈ plainDigits :=
  digitsAt_mem fun _ hc => absurd hc List.not_mem_nil

/-- The name of a unit is read up to the blank behind it or to the end of the text. -/
theorem leads_unitWord (unit : TimeUnit) (one : Bool)
    (htail : ∀ c ∈ tail.head?, c = ' ') :
    (Grammar.unitWord .english).Leads Text.sameLetter
      ⟨(unitText unit one).toList ++ tail, groups⟩ ⟨tail, groups⟩ := by
  obtain ⟨hclosed, hopen, -⟩ := traces_unit unit (by cases unit <;> decide) one
  have hleads : (Grammar.unitWord .english).Leads Text.sameLetter
      ⟨(unitText unit one).toList ++ tail, []⟩ ⟨tail, []⟩ := by
    cases tail with
    | nil =>
      have hmatches := Pattern.matches?_fill (digitsAt []) [] digitsAt_nil_mem (.inr rfl) hclosed
      simp only [Trace.fill, fill, map_fill_letters, List.map_nil] at hmatches
      rw [Leads, hmatches]
      rfl
    | cons c tail =>
      obtain rfl := htail c rfl
      have hmatches := Pattern.matches?_fill (digitsAt []) tail digitsAt_nil_mem (.inl rfl) hopen
      simp only [Trace.fill, fill, List.map_append, map_fill_letters, List.map_cons,
        List.map_nil, Sign.fill, List.append_assoc, List.cons_append, List.nil_append] at hmatches
      rw [Leads, hmatches]
      rfl
  exact hleads.append_groups groups

theorem traces_joined (looped : Bool) :
    (joined looped).traces? Text.sameLetter false ⟨[], []⟩ = some [] ∧
      ∀ opening ∈ openings, (joined looped).traces? Text.sameLetter true
        ⟨(' ' :: opening).map .char, []⟩ = some [] := by
  revert looped
  decide

theorem isBlank_opening : ∀ opening ∈ openings, ∀ more,
    ∀ c ∈ (opening ++ more).head?, Text.isBlank c = false := by
  have hfirst : ∀ opening ∈ openings, ∃ c, opening.head? = some c ∧ Text.isBlank c = false := by
    have : ∀ opening ∈ openings, opening.head?.map Text.isBlank = some false := by decide
    exact fun opening hopening => Option.map_eq_some_iff.1 (this opening hopening)
  intro opening hopening more c hc
  obtain ⟨first, hhead, hblank⟩ := hfirst opening hopening
  rw [List.head?_append, hhead, Option.some_or] at hc
  exact Option.some.inj hc ▸ hblank

theorem isBlank_unitText (unit : TimeUnit) (one : Bool) (tail : List Char) :
    ∀ c ∈ ((unitText unit one).toList ++ tail).head?, Text.isBlank c = false := by
  have hfirst : ((unitText unit one).toList).head?.map Text.isBlank = some false := by
    cases unit <;> cases one <;> decide
  obtain ⟨first, hhead, hblank⟩ := Option.map_eq_some_iff.1 hfirst
  intro c hc
  rw [List.head?_append, hhead, Option.some_or] at hc
  exact Option.some.inj hc ▸ hblank

theorem isBlank_digits (hdigits : ∀ c ∈ digits, c ∈ plainDigits) (hne : digits ≠ []) :
    ∀ c ∈ (digits ++ rest).head?, Text.isBlank c = false := by
  have hplain : ∀ c ∈ plainDigits, Text.isBlank c = false :=
    List.all_iff_forall_prop.1 (by decide)
  intro c hc
  obtain ⟨first, more, rfl⟩ := List.exists_cons_of_ne_nil hne
  exact hplain c (hdigits c (Option.some.inj hc ▸ List.mem_cons_self ..))

/-- What ends a count: nothing, or the conjunction if another count follows. -/
def ending (looped : Bool) : Pattern Field := .seq (.seq (.optional (joined looped)) .empty) blanks

/-- The last count ends where the next description begins. -/
theorem leads_ending_last (looped : Bool) (hnext : Continues tail next) :
    (ending looped).Leads Text.sameLetter ⟨tail, groups⟩ ⟨next, groups⟩ := by
  obtain ⟨hclosed, hopen⟩ := traces_joined looped
  rcases hnext with ⟨rfl, rfl⟩ | ⟨opening, hopening, ⟨more, rfl⟩, rfl⟩
  · have hnone := Pattern.matches?_fill (digitsAt []) [] digitsAt_nil_mem (.inr rfl) hclosed
    have hnone' : (joined looped).matches? Text.sameLetter ⟨[], groups⟩ = [] :=
      Pattern.matches?_eq_nil_of_groups hnone groups
    refine ((Pattern.leads_optional_of_eq_nil hnone').seq (Pattern.leads_empty _)).seq ?_
    exact Pattern.leads_run [] nofun nofun (Nat.le_refl 0)
  · have hnone := Pattern.matches?_fill (digitsAt []) more digitsAt_nil_mem (.inl rfl)
      (hopen opening hopening)
    have htext : (Trace.fill (digitsAt []) more ⟨(' ' :: opening).map .char, []⟩ : Match Field) =
        ⟨' ' :: (opening ++ more), []⟩ := by
      simp [Trace.fill, fill, Sign.fill, Function.comp_def]
    rw [htext] at hnone
    have hnone' : (joined looped).matches? Text.sameLetter ⟨' ' :: (opening ++ more), groups⟩ =
        [] := Pattern.matches?_eq_nil_of_groups hnone groups
    refine ((Pattern.leads_optional_of_eq_nil hnone').seq (Pattern.leads_empty _)).seq ?_
    exact Pattern.leads_run [' '] (fun c hc => List.mem_singleton.1 hc ▸ by decide)
      (isBlank_opening opening hopening more) (by simp)

/-- A count that is not the last ends where the next count begins. -/
theorem leads_ending_joined (looped : Bool) (hdigits : ∀ c ∈ digits, c ∈ plainDigits)
    (hne : digits ≠ []) (unit : TimeUnit) (one : Bool) (htail : ∀ c ∈ tail.head?, c = ' ') :
    (ending looped).Leads Text.sameLetter
      ⟨" and ".toList ++ (digits ++ ' ' :: ((unitText unit one).toList ++ tail)), groups⟩
      ⟨digits ++ ' ' :: ((unitText unit one).toList ++ tail), groups⟩ := by
  have hblanks : blanks.Leads Text.sameLetter
      ⟨' ' :: (digits ++ ' ' :: ((unitText unit one).toList ++ tail)), groups⟩
      ⟨digits ++ ' ' :: ((unitText unit one).toList ++ tail), groups⟩ :=
    Pattern.leads_run [' '] (fun c hc => List.mem_singleton.1 hc ▸ by decide)
      (isBlank_digits hdigits hne) (Nat.zero_le _)
  have hword : (literal " and".toList).Leads Text.sameLetter
      ⟨" and".toList ++ ' ' :: (digits ++ ' ' :: ((unitText unit one).toList ++ tail)), groups⟩
      ⟨' ' :: (digits ++ ' ' :: ((unitText unit one).toList ++ tail)), groups⟩ :=
    Pattern.leads_literal _ (List.all_eq_true.1 (by decide))
  have hcount := (leads_countOf hdigits hne (isBlank_unitText unit one tail) looped).seq
    ((leads_unitWord unit one htail).seq (Pattern.leads_empty ⟨tail, groups⟩))
  have hjoined := hword.seq (hblanks.seq hcount).followedBy
  exact (hjoined.optional.seq (Pattern.leads_empty _)).seq hblanks

theorem chars_append (chars rest : List Char) : (Slice.mk (chars ++ rest) rest).chars = chars := by
  simp [Slice.chars]

/-- A count at the beginning of a text is read with its unit up to the next one. -/
theorem begins_spanItem (looped : Bool) (hdigits : ∀ c ∈ digits, c ∈ plainDigits)
    (hne : digits ≠ []) (unit : TimeUnit) (one : Bool) (htail : ∀ c ∈ tail.head?, c = ' ')
    (hending : ∀ groups, (ending looped).Leads Text.sameLetter ⟨tail, groups⟩ ⟨rest, groups⟩) :
    ∃ m, begins (Grammar.spanItem .english looped)
        (digits ++ ' ' :: ((unitText unit one).toList ++ tail)) = some m ∧ m.rest = rest ∧
      m.group? .unit = some (unitText unit one).toList ∧ m.group? .count = some digits := by
  have hitem := Pattern.leads_seq_assoc.2
    ((leads_countOf_group hdigits hne (isBlank_unitText unit one tail) looped).seq
      (Pattern.leads_seq_assoc.2
        (((leads_unitWord unit one htail).group .unit).seq (hending (_ :: _ :: [])))))
  refine ⟨_, (congrArg (begins · _) (spanItem_english looped)).trans hitem, rfl, ?_, ?_⟩
  · exact congrArg some (chars_append _ _)
  · exact congrArg some (chars_append _ _)

theorem traces_spanItem (looped : Bool) :
    (Grammar.spanItem .english looped).traces? Text.sameLetter false ⟨[], []⟩ = some [] ∧
      ∀ opening ∈ openings, (looped = true → opening ≠ "da".toList) →
        (Grammar.spanItem .english looped).traces? Text.sameLetter true
          ⟨opening.map .char, []⟩ = some [] := by
  revert looped
  decide

/-- Where the next description begins there is no further count. -/
theorem begins_spanItem_next (looped : Bool) (hnext : Continues tail next)
    (hday : looped = true → ¬ "da".toList <+: next) :
    begins (Grammar.spanItem .english looped) next = none := by
  obtain ⟨hclosed, hopen⟩ := traces_spanItem looped
  rw [begins, Pattern.first?, List.head?_eq_none_iff]
  rcases hnext with ⟨-, rfl⟩ | ⟨opening, hopening, ⟨more, rfl⟩, -⟩
  · exact Pattern.matches?_fill (digitsAt []) [] digitsAt_nil_mem (.inr rfl) hclosed
  · have hne : looped = true → opening ≠ "da".toList := fun hlooped heq =>
      hday hlooped (heq ▸ List.prefix_append ..)
    have hnone := Pattern.matches?_fill (digitsAt []) more digitsAt_nil_mem (.inl rfl)
      (hopen opening hopening hne)
    simpa [Trace.fill, fill, Sign.fill, Function.comp_def] using hnone

/-- The characters of a count. -/
theorem toList_countText (unit : TimeUnit) (n : Nat) :
    (countText (unit, (n : Int))).toList =
      Nat.toDigits 10 n ++ ' ' :: (unitText unit (n = 1)).toList := by
  have hone : ((n : Int) = 1) = (n = 1) := propext (by omega)
  simp only [countText, unitText, hone, decide_eq_true_eq, String.toList_append]
  simp [Int.repr, toString]

theorem readNumber_toDigits {n : Nat} (h : n < 10 ^ Text.maxDigits) :
    readNumber (Nat.toDigits 10 n) = .ok n := by
  have hlength : ¬ Text.maxDigits < (Nat.toDigits 10 n).length := by
    have := (Nat.length_toDigits_le_iff (b := 10) (by decide) (by decide : 0 < Text.maxDigits)).2 h
    omega
  rw [readNumber, if_neg hlength, Text.digitsValue_toDigits]

theorem joinedCounts_cons (c d : TimeUnit × Int) (rest : List (TimeUnit × Int)) :
    (" and ".intercalate ((c :: d :: rest).map countText)).toList =
      (countText c).toList ++ (" and ".toList ++
        (" and ".intercalate ((d :: rest).map countText)).toList) := by
  simp [String.toList_intercalate]

/-- One count is read back, and what follows it is read next. -/
theorem counts_succ (looped : Bool) {found : List (TimeUnit × Int)} {unit : TimeUnit} {n : Nat}
    (hnew : ∀ a ∈ found, a.1 ≠ unit) (hn : n < 10 ^ Text.maxDigits)
    (htail : ∀ c ∈ tail.head?, c = ' ')
    (hending : ∀ groups, (ending looped).Leads Text.sameLetter ⟨tail, groups⟩ ⟨rest, groups⟩)
    (fuel : Nat) :
    counts .english (Grammar.spanItem .english looped) found (fuel + 1)
        ((countText (unit, (n : Int))).toList ++ tail) =
      counts .english (Grammar.spanItem .english looped) (found ++ [(unit, (n : Int))]) fuel
        rest := by
  have hdigits : ∀ c ∈ Nat.toDigits 10 n, c ∈ plainDigits := fun c hc => Text.mem_toDigits hc
  obtain ⟨m, hbegins, rfl, hunit, hcount⟩ := begins_spanItem looped hdigits
    (List.ne_nil_of_length_pos Nat.length_toDigits_pos) unit (n = 1) htail hending
  have hlook := (traces_unit unit (by cases unit <;> decide) (n = 1)).2.2
  have hlook' : lookUp Grammar.english.units ((m.group? .unit).getD []) = .ok unit := by
    rwa [hunit, Option.getD_some]
  have hany : ¬ found.any (·.1 = unit) = true := fun h => by
    obtain ⟨a, ha, heq⟩ := List.any_eq_true.1 h
    exact hnew a ha (of_decide_eq_true heq)
  rw [toList_countText, List.append_assoc, List.cons_append, counts, hbegins]
  simp only [hlook', ok_bind, hany, hcount, readNumber_toDigits hn]
  rfl

/-- Behind the first of some counts there is nothing or a blank. -/
theorem exists_afterCount {cs : List (TimeUnit × Int)} (hne : cs ≠ [])
    (htail : ∀ c ∈ tail.head?, c = ' ') : ∃ c ∈ cs, ∃ after : List Char,
      (∀ c ∈ after.head?, c = ' ') ∧
        (" and ".intercalate (cs.map countText)).toList ++ tail =
          (countText c).toList ++ after := by
  match cs, hne with
  | [c], _ => exact ⟨c, List.mem_cons_self .., tail, htail, by simp⟩
  | c :: d :: rest, _ =>
    refine ⟨c, List.mem_cons_self .., _, ?_, by rw [joinedCounts_cons, List.append_assoc]⟩
    exact fun _ hc => (Option.some.inj hc).symm

/-- A text that begins with counts ends the count before it. -/
theorem leads_ending_counts (looped : Bool) {cs : List (TimeUnit × Int)} (hne : cs ≠ [])
    (hshort : ShortCounts cs) (htail : ∀ c ∈ tail.head?, c = ' ') :
    (ending looped).Leads Text.sameLetter
      ⟨" and ".toList ++ ((" and ".intercalate (cs.map countText)).toList ++ tail), groups⟩
      ⟨(" and ".intercalate (cs.map countText)).toList ++ tail, groups⟩ := by
  obtain ⟨⟨unit, count⟩, hc, after, hafter, htext⟩ := exists_afterCount hne htail
  obtain ⟨n, rfl, -⟩ := hshort _ hc
  rw [htext, toList_countText, List.append_assoc, List.cons_append]
  exact leads_ending_joined looped (fun c hc => Text.mem_toDigits hc)
    (List.ne_nil_of_length_pos Nat.length_toDigits_pos) unit (n = 1) hafter

theorem head?_tail (hnext : Continues tail next) : ∀ c ∈ tail.head?, c = ' ' := by
  rcases hnext with ⟨rfl, -⟩ | ⟨-, -, -, rfl⟩
  · exact nofun
  · exact fun c hc => (Option.some.inj hc).symm

/-- Counts are read back with their units, up to the next description. -/
theorem counts_describe (looped : Bool) {found cs : List (TimeUnit × Int)} {fuel : Nat}
    (hne : cs ≠ []) (hunits : (found ++ cs).Pairwise fun a b => a.1 ≠ b.1) (hshort : ShortCounts cs)
    (hfuel : cs.length < fuel) (hnext : Continues tail next)
    (hday : looped = true → ¬ "da".toList <+: next) :
    counts .english (Grammar.spanItem .english looped) found fuel
      ((" and ".intercalate (cs.map countText)).toList ++ tail) =
        .ok (found ++ cs, next) := by
  induction cs generalizing found fuel with
  | nil => exact absurd rfl hne
  | cons c rest ih =>
    obtain ⟨unit, count⟩ := c
    obtain ⟨n, rfl, hn⟩ := hshort _ (List.mem_cons_self ..)
    obtain ⟨fuel, rfl⟩ : ∃ k, fuel = k + 1 := ⟨fuel - 1, by omega⟩
    have hnew : ∀ a ∈ found, a.1 ≠ unit := fun a ha =>
      (List.pairwise_append.1 hunits).2.2 a ha _ (List.mem_cons_self ..)
    cases rest with
    | nil =>
      have hstop : counts .english (Grammar.spanItem .english looped) (found ++ [(unit, (n : Int))])
          fuel next = .ok (found ++ [(unit, (n : Int))], next) := by
        cases fuel with
        | zero => rfl
        | succ fuel => rw [counts, begins_spanItem_next looped hnext hday]; rfl
      rw [List.map_cons, List.map_nil, String.intercalate_singleton,
        counts_succ looped hnew hn (head?_tail hnext) (fun _ => leads_ending_last looped hnext), hstop]
    | cons d rest =>
      have hand (text : List Char) : ∀ c ∈ (" and ".toList ++ text).head?, c = ' ' :=
        fun _ hc => (Option.some.inj hc).symm
      rw [joinedCounts_cons, List.append_assoc, List.append_assoc, counts_succ looped hnew hn
        (hand _) (fun _ => leads_ending_counts looped (List.cons_ne_nil d rest)
          (fun e he => hshort e (List.mem_cons_of_mem _ he)) (head?_tail hnext)),
        ih (List.cons_ne_nil d rest) (by simpa using hunits)
          (fun e he => hshort e (List.mem_cons_of_mem _ he))
          (by rw [List.length_cons] at hfuel; omega),
        List.append_assoc, List.singleton_append]

/-- Counts in range are in the order that spans have. -/
theorem ofCounts_eq_self {cs : List (TimeUnit × Int)} {looped : Bool}
    (h : (Span.counts cs looped).InRange) : Span.ofCounts cs looped = .counts cs looped := by
  obtain ⟨hne, hsorted, hcounts⟩ := h
  have hcs : cs.Pairwise fun a b => a.1.rank < b.1.rank := List.pairwise_map.1 hsorted
  have hunits : cs.Pairwise fun a b => a.1 ≠ b.1 := hcs.imp fun hlt heq =>
    absurd (heq ▸ hlt) (Nat.lt_irrefl _)
  have hsorted := List.pairwise_map.1 (@inRange_ofCounts cs looped hunits
    (shortCounts_iff.2 hcounts) hne).2.1
  have hnodup {l : List (TimeUnit × Int)} (h : l.Pairwise fun a b => a.1.rank < b.1.rank) :
      l.Nodup := h.imp fun hlt heq => absurd (heq ▸ hlt) (Nat.lt_irrefl _)
  have hperm := (List.perm_ext_iff_of_nodup (hnodup hsorted) (hnodup hcs)).2
    fun c => Span.mem_sortedCounts
  exact congrArg (Span.counts · looped)
    (hperm.eq_of_pairwise (fun a b _ _ hab hba => absurd hab (Nat.lt_asymm hba)) hsorted hcs)

/-- The words that open a repetition. -/
def everyOpening : Pattern Field := Grammar.closed (Pattern.oneOf ["every ", "all "])

/-- The words that may open a single span. -/
def inOpening : Pattern Field := Grammar.closed (Grammar.optionalWords ["in "])

theorem spans_english :
    Grammar.english.loopSpan = (some everyOpening, Grammar.spanItem .english true) ∧
      Grammar.english.onceSpan = (inOpening, Grammar.spanItem .english false) := ⟨rfl, rfl⟩

theorem traces_opening :
    everyOpening.traces? Text.sameLetter true ⟨letters "every " ++ [.digit 0], []⟩ =
        some [⟨[.digit 0], []⟩] ∧
      everyOpening.traces? Text.sameLetter true ⟨letters "in " ++ [.digit 0], []⟩ = some [] ∧
      inOpening.traces? Text.sameLetter true ⟨letters "in " ++ [.digit 0], []⟩ =
          some [⟨[.digit 0], []⟩, ⟨letters "in " ++ [.digit 0], []⟩] := by
  decide

/-- The word that opens a span is read up to the digits behind it. -/
theorem begins_opening {c : Char} (hc : c ∈ plainDigits) :
    begins everyOpening ("every ".toList ++ c :: rest) = some ⟨c :: rest, []⟩ ∧
      begins everyOpening ("in ".toList ++ c :: rest) = none ∧
      begins inOpening ("in ".toList ++ c :: rest) = some ⟨c :: rest, []⟩ := by
  obtain ⟨hevery, hnone, hin⟩ := traces_opening
  have hdigits : ∀ i, digitsAt [c] i ∈ plainDigits := digitsAt_mem (by simpa using hc)
  have hmatches {p : Pattern Field} {word : String} {found : List (Trace Field)}
      (h : p.traces? Text.sameLetter true ⟨letters word ++ [.digit 0], []⟩ = some found) :
      begins p (word.toList ++ c :: rest) = (found.map (Trace.fill (digitsAt [c]) rest)).head? := by
    have := Pattern.matches?_fill (digitsAt [c]) rest hdigits (.inl rfl) h
    simp only [Trace.fill, fill, List.map_append, map_fill_letters, List.map_nil, List.map_cons,
      Sign.fill, List.append_assoc, List.cons_append, List.nil_append] at this
    rw [begins, Pattern.first?, ← this]
    rfl
  exact ⟨hmatches hevery, hmatches hnone, hmatches hin⟩

/-- A span is read back, unless it repeats and "day after tomorrow" follows. -/
theorem span_describe {cs : List (TimeUnit × Int)} {looped : Bool}
    (h : (Span.counts cs looped).InRange) (hnext : Continues tail next)
    (hday : looped = true → ¬ "da".toList <+: next) :
    span .english ((lead looped "in" ++ " " ++ " and ".intercalate (cs.map countText)).toList ++
      tail) = .ok (some ⟨ofSpan (.counts cs looped), next⟩) := by
  have hshort : ShortCounts cs := shortCounts_iff.2 h.2.2
  have hunits : cs.Pairwise fun a b => a.1 ≠ b.1 := (List.pairwise_map.1 h.2.1).imp
    fun hlt heq => absurd (heq ▸ hlt) (Nat.lt_irrefl _)
  have hcounts := @counts_describe tail next looped [] cs _ h.1 (by simpa using hunits) hshort
    (Nat.lt_succ_of_le (Distinct.length_le hunits)) hnext hday
  obtain ⟨c, hc, more, hmore⟩ : ∃ c ∈ plainDigits, ∃ more,
      (" and ".intercalate (cs.map countText)).toList ++ tail = c :: more := by
    obtain ⟨⟨unit, count⟩, hc, after, -, htext⟩ := exists_afterCount h.1 (head?_tail hnext)
    obtain ⟨n, rfl, -⟩ := hshort _ hc
    obtain ⟨c, more, hdigits⟩ := List.exists_cons_of_ne_nil
      (List.ne_nil_of_length_pos (Nat.length_toDigits_pos (b := 10) (n := n)))
    have hc : c ∈ plainDigits := Text.mem_toDigits (hdigits ▸ List.mem_cons_self ..)
    rw [htext, toList_countText, hdigits]
    exact ⟨c, hc, _, rfl⟩
  obtain ⟨hevery, hnone, hin⟩ := @begins_opening more c hc
  rw [hmore, List.nil_append] at hcounts
  have hspan {opening : Pattern Field} {text : List Char}
      (hbegins : begins opening text = some ⟨c :: more, []⟩) :
      spanAfter .english opening (Grammar.spanItem .english looped) looped text =
        .ok (some ⟨ofSpan (.counts cs looped), next⟩) := by
    have hempty : ¬ cs.isEmpty = true := by simpa using h.1
    simp only [spanAfter, hbegins, hcounts, ok_bind, if_neg hempty, ofCounts_eq_self h, pure_eq_ok]
  have htext : (lead looped "in" ++ " " ++ " and ".intercalate (cs.map countText)).toList ++ tail =
      (lead looped "in").toList ++ ' ' :: c :: more := by
    simp [← hmore]
  rw [htext, span, spans_english.1, spans_english.2]
  cases looped with
  | true =>
    have hfirst : spanAfter .english everyOpening (Grammar.spanItem .english true) true
        ((lead true "in").toList ++ ' ' :: c :: more) = _ := hspan hevery
    simp only [hfirst, ok_bind, pure_eq_ok]
  | false =>
    have hfirst : spanAfter .english everyOpening (Grammar.spanItem .english true) true
        ((lead false "in").toList ++ ' ' :: c :: more) = .ok none := by
      have hbegins : begins everyOpening ((lead false "in").toList ++ ' ' :: c :: more) = none :=
        hnone
      rw [spanAfter, hbegins]
      rfl
    simp only [hfirst, ok_bind]
    exact hspan hin

end TimePhrase.Recognizer
