import Mathlib.Data.Bool.AllAny
import Mathlib.Data.List.Chain
import Mathlib.Data.List.Forall2
import Mathlib.Data.List.Nodup
import TimePhrase.Format
import TimePhrase.Pattern.Read

/-!
# What a format is translated into

A format that is written from its segments is translated segment by segment: quoted text into
itself, plain text from left to right, the longest token first. The regular expression for quoted
text matches that text and no other.
-/

namespace TimePhrase.Format

/-- The text with each of its quotes written twice. -/
def doubled (text : List Char) : List Char :=
  text.flatMap fun c => if c = '\'' then ['\'', '\''] else [c]

namespace Segment

/-- The segment as it is written in a format. -/
def written : Segment → List Char
  | plain text => text
  | quoted text => '\'' :: (doubled text ++ ['\''])

def IsQuoted : Segment → Prop
  | plain _ => False
  | quoted _ => True

/-- The segment holds text, and quotes only if it is quoted. -/
def Proper : Segment → Prop
  | plain text => text ≠ [] ∧ '\'' ∉ text
  | quoted text => text ≠ []

end Segment

/-- No two quoted segments stand side by side. -/
def Apart (segs : List Segment) : Prop :=
  segs.IsChain fun s t => ¬ (s.IsQuoted ∧ t.IsQuoted)

/-- The segments with plain text that stands side by side put together. -/
def joined : List Segment → List Segment
  | [] => []
  | .quoted text :: segs => .quoted text :: joined segs
  | .plain text :: segs =>
    match joined segs with
    | .plain more :: rest => .plain (text ++ more) :: rest
    | rest => .plain text :: rest

/-- From left to right, the longest token that the text starts with is replaced by its meaning,
and a character at which no token starts is escaped. -/
inductive Translates (tokens : List (String × String)) : List Char → List Char → Prop
  | nil : Translates tokens [] []
  | token {token meaning : String} {rest out : List Char} (hmem : (token, meaning) ∈ tokens)
    (hlongest : ∀ t ∈ tokens, t.1.toList <+: token.toList ++ rest → t.1.length ≤ token.length)
    (h : Translates tokens rest out) :
    Translates tokens (token.toList ++ rest) (meaning.toList ++ out)
  | char {c : Char} {rest out : List Char} (hnone : ∀ t ∈ tokens, ¬ t.1.toList <+: c :: rest)
    (h : Translates tokens rest out) : Translates tokens (c :: rest) (Text.escapeChar c ++ out)

/-- The regular expression that a segment on its own becomes. -/
def Segment.Becomes (tokens : List (String × String)) : Segment → List Char → Prop
  | plain text => Translates tokens text
  | quoted text => (· = Text.escape text)

/-! ### Taking a format apart -/

theorem closeQuote_doubled {text rest : List Char} (hrest : rest.head? ≠ some '\'') :
    closeQuote (doubled text ++ '\'' :: rest) = some (text, rest) := by
  induction text with
  | nil =>
    cases rest with
    | nil => simp [doubled, closeQuote]
    | cons c cs =>
      have hc : c ≠ '\'' := fun h => hrest (congrArg some h)
      simp [doubled, closeQuote, hc]
  | cons c cs ih =>
    by_cases hc : c = '\''
    · subst hc
      have hwritten : doubled ('\'' :: cs) = '\'' :: '\'' :: doubled cs := rfl
      rw [hwritten, List.cons_append, List.cons_append, closeQuote, ih]
    · have hwritten : doubled (c :: cs) = c :: doubled cs := by simp [doubled, hc]
      rw [hwritten, List.cons_append, closeQuote, if_neg hc, ih]
      · rfl
      · simp [hc]

theorem segmentsFrom_plain {text rest : List Char} (h : '\'' ∉ text) (before : List Char) :
    segmentsFrom before (text ++ rest) = segmentsFrom (text.reverse ++ before) rest := by
  induction text generalizing before with
  | nil => rfl
  | cons c cs ih =>
    have hc : c ≠ '\'' := (List.ne_of_not_mem_cons h).symm
    rw [List.cons_append, segmentsFrom, if_neg hc, ih (List.not_mem_of_not_mem_cons h)]
    simp

theorem segmentsFrom_quoted {text rest : List Char} (h : text ≠ [])
    (hrest : rest.head? ≠ some '\'') (before : List Char) :
    segmentsFrom before ((Segment.quoted text).written ++ rest) =
      .plain before.reverse :: .quoted text :: segmentsFrom [] rest := by
  have hclose : closeQuote (doubled text ++ '\'' :: rest) = some (text, rest) :=
    closeQuote_doubled hrest
  have hwritten : (Segment.quoted text).written ++ rest =
      '\'' :: (doubled text ++ '\'' :: rest) := by
    simp [Segment.written]
  rw [hwritten, segmentsFrom, if_pos rfl]
  split
  · rename_i found behind hfound
    obtain ⟨rfl, rfl⟩ := Prod.mk.inj (Option.some.inj (hfound.symm.trans hclose))
    simp [h]
  · rename_i hfound
    exact absurd (hfound.symm.trans hclose) (by simp)

/-- Behind a quoted segment no quote follows. -/
theorem head?_written_ne {segs : List Segment} (hproper : ∀ s ∈ segs, s.Proper)
    (hfirst : ∀ s ∈ segs.head?, ¬ s.IsQuoted) :
    (segs.flatMap Segment.written).head? ≠ some '\'' := by
  cases segs with
  | nil => simp
  | cons s segs =>
    cases s with
    | quoted text => exact absurd trivial (hfirst _ rfl)
    | plain text =>
      obtain ⟨hne, hquote⟩ := hproper _ List.mem_cons_self
      obtain ⟨c, cs, rfl⟩ := List.exists_cons_of_ne_nil hne
      have hc : c ≠ '\'' := fun h => hquote (h ▸ List.mem_cons_self)
      simp [Segment.written, hc]

theorem joined_plain_plain (text more : List Char) (segs : List Segment) :
    joined (.plain text :: .plain more :: segs) = joined (.plain (text ++ more) :: segs) := by
  simp only [joined]
  cases joined segs with
  | nil => rfl
  | cons s rest =>
    cases s with
    | plain last => simp
    | quoted last => rfl

section

variable {α : Type} {tokens : List (List Char × α)}

/-- Plain text that is empty has no pieces. -/
theorem flatMap_pieces_joined (hgap : piecesFrom tokens 0 [] = []) (segs : List Segment) :
    (joined (.plain [] :: segs)).flatMap (·.pieces tokens) =
      (joined segs).flatMap (·.pieces tokens) := by
  rw [joined]
  split
  · rename_i hsegs
    rw [hsegs, List.nil_append]
  · rw [List.flatMap_cons, Segment.pieces, hgap, List.nil_append]

theorem flatMap_pieces_segmentsFrom (hgap : piecesFrom tokens 0 [] = []) {segs : List Segment}
    (hproper : ∀ s ∈ segs, s.Proper) (hapart : Apart segs) (before : List Char) :
    (segmentsFrom before (segs.flatMap Segment.written)).flatMap (·.pieces tokens) =
      (joined (.plain before.reverse :: segs)).flatMap (·.pieces tokens) := by
  induction segs generalizing before with
  | nil => simp [segmentsFrom, joined]
  | cons s segs ih =>
    obtain ⟨hs, hsegs⟩ := List.forall_mem_cons.1 hproper
    have hrest := ih hsegs hapart.tail
    rw [List.flatMap_cons]
    cases s with
    | plain text =>
      rw [Segment.written, segmentsFrom_plain hs.2, hrest, joined_plain_plain,
        List.reverse_append, List.reverse_reverse]
    | quoted text =>
      have hfirst : ∀ t ∈ segs.head?, ¬ t.IsQuoted := by
        intro t ht hquoted
        exact (List.isChain_cons.1 hapart).1 t ht ⟨trivial, hquoted⟩
      rw [segmentsFrom_quoted hs (head?_written_ne hsegs hfirst)]
      have hjoined : joined (.plain before.reverse :: .quoted text :: segs) =
          .plain before.reverse :: .quoted text :: joined segs := rfl
      simp only [hjoined, List.flatMap_cons, hrest, List.reverse_nil, flatMap_pieces_joined hgap]

/-! ### The longest token -/

/-- The longer one of a token and the one found before, if there is one. -/
def longer (best : Option (List Char × α)) (t : List Char × α) : Option (List Char × α) :=
  match best with
  | some b => if b.1.length < t.1.length then some t else best
  | none => some t

theorem longer_spec (best : Option (List Char × α)) (t : List Char × α) :
    ∃ b, longer best t = some b ∧ (best = some b ∨ b = t) ∧ t.1.length ≤ b.1.length ∧
      ∀ s, best = some s → s.1.length ≤ b.1.length := by
  cases best with
  | none => exact ⟨t, rfl, .inr rfl, Nat.le_refl _, nofun⟩
  | some b =>
    by_cases hlt : b.1.length < t.1.length
    · refine ⟨t, if_pos hlt, .inr rfl, Nat.le_refl _, ?_⟩
      rintro s ⟨⟩
      exact Nat.le_of_lt hlt
    · refine ⟨b, if_neg hlt, .inl rfl, Nat.not_lt.1 hlt, ?_⟩
      rintro s ⟨⟩
      exact Nat.le_refl _

/-- The longest of a list of tokens is one of them, and none is longer. -/
theorem foldl_longer (ts : List (List Char × α)) (best : Option (List Char × α)) :
    (∀ b, ts.foldl longer best = some b → best = some b ∨ b ∈ ts) ∧
      ∀ t, best = some t ∨ t ∈ ts →
        ∃ b, ts.foldl longer best = some b ∧ t.1.length ≤ b.1.length := by
  induction ts generalizing best with
  | nil =>
    constructor
    · intro b hb
      exact .inl hb
    · rintro t (ht | ht)
      · exact ⟨t, ht, Nat.le_refl _⟩
      · cases ht
  | cons t ts ih =>
    obtain ⟨next, hnext, hfrom, hlonger, hbest⟩ := longer_spec best t
    obtain ⟨hmem, hlongest⟩ := ih (some next)
    rw [List.foldl_cons, hnext]
    constructor
    · intro b hb
      rcases hmem b hb with hb | hb
      · cases hb
        rcases hfrom with hfrom | rfl
        · exact .inl hfrom
        · exact .inr List.mem_cons_self
      · exact .inr (List.mem_cons_of_mem _ hb)
    · intro s hs
      obtain ⟨b, hb, hle⟩ := hlongest next (.inl rfl)
      rcases hs with hs | hs
      · exact ⟨b, hb, (hbest s hs).trans hle⟩
      · rcases List.mem_cons.1 hs with rfl | hs
        · exact ⟨b, hb, hlonger.trans hle⟩
        · exact hlongest s (.inr hs)

theorem mem_starting {text : List Char} {t : List Char × α} :
    t ∈ tokens.filter (fun t => !t.1.isEmpty && t.1.isPrefixOf text) ↔
      t ∈ tokens ∧ t.1 ≠ [] ∧ t.1 <+: text := by
  simp [List.mem_filter]

theorem longestToken_eq_none_iff {text : List Char} :
    longestToken tokens text = none ↔ ∀ t ∈ tokens, t.1 ≠ [] → ¬ t.1 <+: text := by
  obtain ⟨hmem, hlongest⟩ :=
    foldl_longer (tokens.filter fun t => !t.1.isEmpty && t.1.isPrefixOf text) none
  constructor
  · intro h t ht hne hstarts
    obtain ⟨b, hb, -⟩ := hlongest t (.inr (mem_starting.2 ⟨ht, hne, hstarts⟩))
    cases hb.symm.trans h
  · intro h
    refine Option.eq_none_iff_forall_ne_some.2 fun t ht => ?_
    obtain ⟨ht, hne, hstarts⟩ := mem_starting.1 ((hmem t ht).resolve_left nofun)
    exact h t ht hne hstarts

theorem longestToken_eq_some {text : List Char} {t : List Char × α}
    (h : longestToken tokens text = some t) :
    t ∈ tokens ∧ t.1 ≠ [] ∧ t.1 <+: text ∧
      ∀ s ∈ tokens, s.1 <+: text → s.1.length ≤ t.1.length := by
  obtain ⟨hmem, hlongest⟩ :=
    foldl_longer (tokens.filter fun t => !t.1.isEmpty && t.1.isPrefixOf text) none
  obtain ⟨ht, hne, hstarts⟩ := mem_starting.1 ((hmem t h).resolve_left nofun)
  refine ⟨ht, hne, hstarts, ?_⟩
  intro s hs hprefix
  by_cases hempty : s.1 = []
  · simp [hempty]
  · obtain ⟨b, hb, hle⟩ := hlongest s (.inr (mem_starting.2 ⟨hs, hempty, hprefix⟩))
    cases hb.symm.trans h
    exact hle

/-- Where no token has two meanings, there is one longest token only. -/
theorem longestToken_of_longest (hkeys : (tokens.map (·.1)).Nodup) {text : List Char}
    {t : List Char × α} (ht : t ∈ tokens) (hne : t.1 ≠ []) (hstarts : t.1 <+: text)
    (hlongest : ∀ s ∈ tokens, s.1 <+: text → s.1.length ≤ t.1.length) :
    longestToken tokens text = some t := by
  cases hfound : longestToken tokens text with
  | none => exact absurd hstarts (longestToken_eq_none_iff.1 hfound t ht hne)
  | some s =>
    obtain ⟨hs, -, hprefix, hmost⟩ := longestToken_eq_some hfound
    have hlength : s.1.length = t.1.length :=
      Nat.le_antisymm (hlongest s hs hprefix) (hmost t ht hstarts)
    have hkey : s.1 = t.1 := (List.prefix_of_prefix_length_le hprefix hstarts
      (Nat.le_of_eq hlength)).eq_of_length hlength
    rw [List.inj_on_of_nodup_map hkeys hs ht hkey]

theorem piecesFrom_skip {text : List Char} {skip : Nat} (h : skip ≤ text.length) :
    piecesFrom tokens skip text = piecesFrom tokens 0 (text.drop skip) := by
  induction text generalizing skip with
  | nil =>
    obtain rfl := Nat.le_zero.1 h
    rfl
  | cons c cs ih =>
    cases skip with
    | zero => rfl
    | succ n => rw [piecesFrom, ih (Nat.le_of_succ_le_succ h), List.drop_succ_cons]

end

/-! ### The translation of plain text -/

section

variable {tokens : List (String × String)} {text out : List Char}

/-- The tokens as lists of characters. -/
def spelled (tokens : List (String × String)) : List (List Char × String) :=
  tokens.map fun (token, meaning) => (token.toList, meaning)

theorem forall_mem_spelled {p : List Char × String → Prop} :
    (∀ t ∈ spelled tokens, p t) ↔ ∀ t ∈ tokens, p (t.1.toList, t.2) :=
  List.forall_mem_map

theorem nodup_spelled (h : (tokens.map (·.1)).Nodup) : ((spelled tokens).map (·.1)).Nodup := by
  have hmap : (spelled tokens).map (·.1) = (tokens.map (·.1)).map String.toList := by
    simp [spelled]
  rw [hmap]
  exact h.map fun s t => String.toList_inj.1

variable (hne : ∀ t ∈ tokens, t.1 ≠ "")
include hne

theorem gap_spelled : (spelled tokens).filter (·.1.isEmpty) = [] := by
  refine List.filter_eq_nil_iff.2 (forall_mem_spelled.2 fun t ht => ?_)
  simpa using hne t ht

theorem piecesFrom_spelled_nil : piecesFrom (spelled tokens) 0 [] = [] := by
  simp [piecesFrom, gap_spelled hne]

theorem piecesFrom_spelled_char {c : Char} {rest : List Char}
    (hnone : ∀ t ∈ tokens, ¬ t.1.toList <+: c :: rest) :
    piecesFrom (spelled tokens) 0 (c :: rest) =
      .char c :: piecesFrom (spelled tokens) 0 rest := by
  have hlongest : longestToken (spelled tokens) (c :: rest) = none :=
    longestToken_eq_none_iff.2 (forall_mem_spelled.2 fun t ht _ => hnone t ht)
  simp [piecesFrom, gap_spelled hne, hlongest]

omit hne in
theorem piecesFrom_spelled_token {token meaning : String} {rest : List Char} (htoken : token ≠ "")
    (hlongest : longestToken (spelled tokens) (token.toList ++ rest) =
      some (token.toList, meaning)) :
    piecesFrom (spelled tokens) 0 (token.toList ++ rest) =
      .token meaning :: piecesFrom (spelled tokens) 0 rest := by
  have hne : token.toList ≠ [] := by simpa using htoken
  obtain ⟨c, cs, hcs⟩ := List.exists_cons_of_ne_nil hne
  have hskip : piecesFrom (spelled tokens) cs.length (cs ++ rest) =
      piecesFrom (spelled tokens) 0 rest := by
    rw [piecesFrom_skip (by simp), List.drop_left]
  rw [hcs] at hlongest ⊢
  rw [List.cons_append] at hlongest ⊢
  rw [piecesFrom, hlongest]
  simp [hskip]

theorem translates_iff (hkeys : (tokens.map (·.1)).Nodup) :
    Translates tokens text out ↔
      out = (piecesFrom (spelled tokens) 0 text).flatMap Piece.regex := by
  constructor
  · intro h
    induction h with
    | nil => rw [piecesFrom_spelled_nil hne, List.flatMap_nil]
    | @token token meaning rest out hmem hlongest h ih =>
      have hfound : longestToken (spelled tokens) (token.toList ++ rest) =
          some (token.toList, meaning) := by
        apply longestToken_of_longest (nodup_spelled hkeys)
        · exact List.mem_map.2 ⟨_, hmem, rfl⟩
        · simpa using hne _ hmem
        · exact List.prefix_append _ _
        · exact forall_mem_spelled.2 hlongest
      rw [piecesFrom_spelled_token (hne _ hmem) hfound, List.flatMap_cons, ← ih]
      rfl
    | char hnone h ih =>
      rw [piecesFrom_spelled_char hne hnone, List.flatMap_cons, ← ih]
      rfl
  · rintro rfl
    induction hlength : text.length using Nat.strongRecOn generalizing text with
    | ind n ih =>
      subst hlength
      cases text with
      | nil =>
        rw [piecesFrom_spelled_nil hne, List.flatMap_nil]
        exact .nil
      | cons c cs =>
        cases hfound : longestToken (spelled tokens) (c :: cs) with
        | none =>
          have hnone : ∀ t ∈ tokens, ¬ t.1.toList <+: c :: cs := by
            intro t ht
            apply forall_mem_spelled.1 (longestToken_eq_none_iff.1 hfound) t ht
            simpa using hne t ht
          rw [piecesFrom_spelled_char hne hnone, List.flatMap_cons]
          exact .char hnone (ih _ (Nat.lt_succ_self _) rfl)
        | some t =>
          obtain ⟨hmem, -, hstarts, hlongest⟩ := longestToken_eq_some hfound
          obtain ⟨⟨token, meaning⟩, ht, rfl⟩ := List.mem_map.1 hmem
          obtain ⟨rest, hrest⟩ := hstarts
          rw [← hrest] at hfound hlongest ih ⊢
          rw [piecesFrom_spelled_token (hne _ ht) hfound, List.flatMap_cons]
          have hlength : 0 < token.toList.length :=
            List.length_pos_iff.2 (by simpa using hne _ ht)
          apply Translates.token ht (forall_mem_spelled.1 hlongest)
          apply ih _ _ rfl
          simpa using hlength

end

/-! ### The regular expression of quoted text -/

theorem ne_of_not_special {c special : Char} (h : ¬ Text.specialChars.contains c)
    (hspecial : Text.specialChars.contains special) : c ≠ special := by
  rintro rfl
  exact h hspecial

theorem readCount_cons {c : Char} {cs : List Char}
    (h : c = '\\' ∨ ¬ Text.specialChars.contains c) :
    Pattern.readCount (c :: cs) = (⟨1, some 1⟩, c :: cs) := by
  rcases h with rfl | h
  · rfl
  · have hcount : c ≠ '?' ∧ c ≠ '*' ∧ c ≠ '+' ∧ c ≠ '\x7b' :=
      ⟨ne_of_not_special h rfl, ne_of_not_special h rfl, ne_of_not_special h rfl,
        ne_of_not_special h rfl⟩
    obtain ⟨hoptional, hany, hsome, htimes⟩ := hcount
    unfold Pattern.readCount
    split <;> first | contradiction | simp_all

theorem readCount_escape (text : List Char) :
    Pattern.readCount (Text.escape text) = (⟨1, some 1⟩, Text.escape text) := by
  cases text with
  | nil => rfl
  | cons c cs =>
    have hescape : Text.escape (c :: cs) = Text.escapeChar c ++ Text.escape cs := rfl
    rw [hescape, Text.escapeChar]
    split
    · exact readCount_cons (.inl rfl)
    · rename_i hc
      exact readCount_cons (.inr hc)

theorem escapedClass_special {c : Char} (h : Text.specialChars.contains c) :
    Pattern.escapedClass c = .exactly c := by
  have hall : ∀ c ∈ Text.specialChars, Pattern.escapedClass c = .exactly c :=
    List.all_iff_forall_prop.1 (by decide)
  exact hall c (List.contains_iff_mem.1 h)

/-- An escaped character stands for itself. -/
theorem readItem_escape (c : Char) (text : List Char) (fuel : Nat) :
    ∃ first rest, Text.escapeChar c ++ Text.escape text = first :: rest ∧
      ¬ (first = '|' ∨ first = ')') ∧
      Pattern.readItem (fuel + 1) first rest = some (.one (.exactly c), Text.escape text) := by
  by_cases hc : Text.specialChars.contains c
  · have hescape : Text.escapeChar c = ['\\', c] := if_pos hc
    refine ⟨'\\', c :: Text.escape text, by rw [hescape]; rfl, by decide, ?_⟩
    simp [Pattern.readItem, readCount_escape, escapedClass_special hc, Pattern.counted]
  · have hescape : Text.escapeChar c = [c] := if_neg hc
    refine ⟨c, Text.escape text, by rw [hescape]; rfl, ?_, ?_⟩
    · rintro (rfl | rfl) <;> exact hc rfl
    · have hopen : c ≠ '(' := ne_of_not_special hc rfl
      have hend : c ≠ '$' := ne_of_not_special hc rfl
      have hbackslash : c ≠ '\\' := ne_of_not_special hc rfl
      have hany : c ≠ '.' := ne_of_not_special hc rfl
      simp [Pattern.readItem, hopen, hbackslash, hany, readCount_escape, Pattern.counted]

theorem readSequence_escape (text : List Char) {fuel : Nat} (h : text.length < fuel) :
    Pattern.readSequence (fuel + 1) (Text.escape text) = some (.literal text, []) := by
  induction text generalizing fuel with
  | nil => rfl
  | cons c cs ih =>
    obtain ⟨fuel, rfl⟩ : ∃ n, fuel = n + 1 := ⟨fuel - 1, by omega⟩
    obtain ⟨first, rest, hescape, hfirst, hitem⟩ := readItem_escape c cs fuel
    have hcons : Text.escape (c :: cs) = first :: rest := hescape
    have hrest := ih (Nat.lt_of_succ_lt_succ h)
    rw [hcons, Pattern.readSequence, if_neg hfirst, hitem]
    simp [hrest, Pattern.literal]

theorem length_le_escape (text : List Char) : text.length ≤ (Text.escape text).length := by
  induction text with
  | nil => exact Nat.le_refl _
  | cons c cs ih =>
    have hescape : Text.escape (c :: cs) = Text.escapeChar c ++ Text.escape cs := rfl
    have hchar : 1 ≤ (Text.escapeChar c).length := by
      unfold Text.escapeChar
      split <;> simp
    rw [hescape, List.length_append, List.length_cons]
    omega

theorem ofText?_escape (text : List Char) :
    Pattern.ofText? (String.ofList (Text.escape text)) = some (.literal text) := by
  have hlength := length_le_escape text
  rw [Pattern.ofText?, String.length_ofList, String.toList_ofList, Pattern.readAlternatives,
    readSequence_escape text (by omega)]
  rfl

theorem matches?_literal (text s : List Char) :
    (Pattern.literal text : Pattern String).matches? (· == ·) ⟨s, []⟩ =
      if text <+: s then [⟨s.drop text.length, []⟩] else [] := by
  induction text generalizing s with
  | nil => simp [Pattern.literal, Pattern.matches?]
  | cons c cs ih =>
    have hcons : (Pattern.literal (c :: cs) : Pattern String) =
      .seq (.one (.exactly c)) (.literal cs) := rfl
    rw [hcons, Pattern.matches?]
    cases s with
    | nil => simp [Pattern.matches?]
    | cons d ds =>
      by_cases hcd : c = d
      · subst hcd
        simp [Pattern.matches?, CharClass.accepts, ih, List.cons_prefix_cons]
      · simp [Pattern.matches?, CharClass.accepts, hcd, List.cons_prefix_cons]

theorem isSome_whole?_literal {text s : List Char} :
    ((Pattern.literal text : Pattern String).whole? (· == ·) s).isSome ↔ s = text := by
  rw [Pattern.whole?, matches?_literal]
  split
  · rename_i hprefix
    obtain ⟨rest, rfl⟩ := hprefix
    simp
  · rename_i hprefix
    constructor
    · simp
    · rintro rfl
      exact absurd (List.prefix_refl _) hprefix

/-! ### The regular expression of a format -/

section

variable {tokens : List (String × String)}

theorem becomes_iff (hkeys : (tokens.map (·.1)).Nodup) (hempty : ∀ t ∈ tokens, t.1 ≠ "")
    (s : Segment) (out : List Char) :
    s.Becomes tokens out ↔ (s.pieces (spelled tokens)).flatMap Piece.regex = out := by
  cases s with
  | plain text => exact (translates_iff hempty hkeys).trans eq_comm
  | quoted text =>
    have hregex : (text.map Piece.char).flatMap Piece.regex = Text.escape text := by
      rw [List.flatMap_map]
      rfl
    rw [Segment.pieces, hregex]
    exact eq_comm

theorem regex_written (hne : tokens ≠ []) (hkeys : (tokens.map (·.1)).Nodup)
    (hempty : ∀ t ∈ tokens, t.1 ≠ "") {segs : List Segment} (hproper : ∀ s ∈ segs, s.Proper)
    (hapart : Apart segs) :
    ∃ outs : List (List Char),
      regex tokens (String.ofList (segs.flatMap Segment.written)) =
        .ok (String.ofList outs.flatten) ∧
      ∀ others, List.Forall₂ (Segment.Becomes tokens) (joined segs) others ↔ others = outs := by
  let out : Segment → List Char := fun s => (s.pieces (spelled tokens)).flatMap Piece.regex
  refine ⟨(joined segs).map out, ?_, ?_⟩
  · have hgap := piecesFrom_spelled_nil hempty
    have hpieces : pieces (spelled tokens) (segs.flatMap Segment.written) =
        (joined segs).flatMap (·.pieces (spelled tokens)) :=
      (flatMap_pieces_segmentsFrom hgap hproper hapart []).trans
        (flatMap_pieces_joined hgap segs)
    have htext : (pieces (spelled tokens) (segs.flatMap Segment.written)).flatMap Piece.regex =
        ((joined segs).map out).flatten := by
      rw [hpieces, List.flatMap_assoc, List.flatMap_def]
    rw [regex, if_neg (by simpa using hne), String.toList_ofList]
    exact congrArg (fun text => Except.ok (String.ofList text)) htext
  · intro others
    have hbecomes : Segment.Becomes tokens = fun s o => out s = o := by
      funext s o
      exact propext (becomes_iff hkeys hempty s o)
    rw [hbecomes, ← List.forall₂_map_left_iff, List.forall₂_eq_eq_eq]
    exact eq_comm

end

/-- A format is translated segment by segment, and quoted text matches itself only. -/
theorem regex_segments {tokens : List (String × String)} (hne : tokens ≠ [])
    (hkeys : (tokens.map (·.1)).Nodup) (hempty : ∀ t ∈ tokens, t.1 ≠ "") :
    (∀ segs : List Segment, (∀ s ∈ segs, s.Proper) → Apart segs →
      ∃ outs : List (List Char),
        regex tokens (String.ofList (segs.flatMap Segment.written)) =
          .ok (String.ofList outs.flatten) ∧
        ∀ others, List.Forall₂ (Segment.Becomes tokens) (joined segs) others ↔
          others = outs) ∧
      ∀ text : List Char, text ≠ [] → ∃ expr p,
        regex tokens (String.ofList (Segment.quoted text).written) = .ok expr ∧
          Pattern.ofText? expr = some p ∧
          ∀ s, (p.whole? (· == ·) s).isSome ↔ s = text := by
  constructor
  · intro segs hproper hapart
    exact regex_written hne hkeys hempty hproper hapart
  · intro text htext
    have hproper : ∀ s ∈ [Segment.quoted text], s.Proper := List.forall_mem_singleton.2 htext
    obtain ⟨outs, hregex, houts⟩ :=
      regex_written hne hkeys hempty hproper (List.isChain_singleton _)
    obtain rfl := (houts [Text.escape text]).1 (.cons rfl .nil)
    rw [List.flatMap_singleton, List.flatten_singleton] at hregex
    refine ⟨_, .literal text, hregex, ofText?_escape text, ?_⟩
    intro s
    exact isSome_whole?_literal

/-- A quote and the letter of a token stand for themselves where they are quoted. -/
theorem regex_segments_ordinal :
    let tokens := [("d", "\\d\\d?"), ("dd", "\\d\\d")]
    let segs : List Segment := [.plain "ddd".toList, .quoted "d's".toList, .plain ".".toList]
    (∀ s ∈ segs, s.Proper) ∧ Apart segs ∧ joined segs = segs ∧
      segs.flatMap Segment.written = "ddd'd''s'.".toList ∧
      regex tokens "ddd'd''s'." = .ok "\\d\\d\\d\\d?d's\\." ∧
      ∃ outs : List (List Char), "\\d\\d\\d\\d?d's\\." = String.ofList outs.flatten ∧
        ∀ others, List.Forall₂ (Segment.Becomes tokens) segs others ↔ others = outs := by
  intro tokens segs
  have hproper : ∀ s ∈ segs, s.Proper := by
    simp [segs, Segment.Proper]
  have hapart : Apart segs := by
    simp [segs, Apart, Segment.IsQuoted]
  have hregex : regex tokens "ddd'd''s'." = .ok "\\d\\d\\d\\d?d's\\." := by decide +kernel
  obtain ⟨outs, hwritten, houts⟩ :=
    (@regex_segments tokens (by decide) (by decide) (by decide)).1 segs hproper hapart
  refine ⟨hproper, hapart, by decide, by decide, hregex, outs, ?_, houts⟩
  exact Except.ok.inj (hregex.symm.trans hwritten)

/-- Plain text that stands side by side can hold a token together that none of its pieces holds,
so that it is not translated piece by piece. -/
theorem regex_plain_plain :
    let tokens := [("d", "\\d\\d?"), ("dd", "\\d\\d")]
    let segs : List Segment := [.plain "d".toList, .plain "d".toList]
    let outs := ["\\d\\d?".toList, "\\d\\d?".toList]
    (∀ s ∈ segs, s.Proper) ∧ Apart segs ∧ List.Forall₂ (Segment.Becomes tokens) segs outs ∧
      regex tokens (String.ofList (segs.flatMap Segment.written)) ≠
        .ok (String.ofList outs.flatten) := by
  intro tokens segs outs
  have hproper : ∀ s ∈ segs, s.Proper := by
    simp [segs, Segment.Proper]
  have hapart : Apart segs := by
    simp [segs, Apart, Segment.IsQuoted]
  have hday : Translates tokens "d".toList "\\d\\d?".toList :=
    @Translates.token tokens "d" "\\d\\d?" [] [] (by decide) (by decide) .nil
  have hregex : regex tokens "dd" = .ok "\\d\\d" := by decide +kernel
  refine ⟨hproper, hapart, .cons hday (.cons hday .nil), ?_⟩
  intro h
  have houts : "\\d\\d" = String.ofList outs.flatten := Except.ok.inj (hregex.symm.trans h)
  exact absurd (congrArg String.toList houts) (by rw [String.toList_ofList]; decide)

end TimePhrase.Format
